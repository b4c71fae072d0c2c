import MicroSql.Storage.FreeSpace
import MicroSql.Storage.RowExtent
import MicroSql.Storage.FailedRead
import MicroSql.Executor.ColumnList
import MicroSql.Executor.Truth
import MicroSql.Executor.Exact
import MicroSql.Executor.Simultaneous
import MicroSql.Engine.Project
import MicroSql.Engine.Runs
import MicroSql.Engine.Create
import MicroSql.Engine.Whole
import MicroSql.Engine.Delete
import MicroSql.Engine.IllTyped
import MicroSql.Engine.FailedInsert
import MicroSql.Engine.LegalUpdate
import MicroSql.Engine.NullCompare
import MicroSql.Engine.Isolation
import MicroSql.Engine.Restart
import MicroSql.Engine.Damaged
import MicroSql.Engine.Columns
import MicroSql.Engine.Literal
import MicroSql.Lexer.Recased
import MicroSql.Lexer.Split
import MicroSql.Lexer.Positions
import MicroSql.Lexer.Render
import MicroSql.Parser.Printer
import MicroSql.Parser.InsertValues
import MicroSql.Parser.Recased
import MicroSql.Parser.Lengths
import MicroSql.Parser.Unchecked
import MicroSql.Parser.Ordered
import MicroSql.Prompt.Statements
import MicroSql.Engine.Space
import MicroSql.Relational.Lookup
import MicroSql.Relational.Printed
import MicroSql.Relational.WellTyped
