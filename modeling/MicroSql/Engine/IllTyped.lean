import MicroSql.Engine.Update
import MicroSql.Table.Rejects

/-!
# Ill-typed values

An INSERT or UPDATE with a value that is neither NULL nor of the type of its column is meant
to be refused.  It is refused only where another check comes first: otherwise the encoder
takes the type for granted, and the statement ends with an exception.
-/

namespace MicroSql

open Lib

section

variable {w : Engine} {pr : ParseResult} {t : TableSchema}

end

end MicroSql
