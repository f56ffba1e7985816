/-
BittyAi.Mcp.ToolImportTheorems — what an import of tools asks for and what it keeps.

The server decides the pages, their cursors and when they arrive. A cursor is spent once it
is on the wire, so the cursors of the requests are distinct, and the loop has a fixed number
of turns (`pageCursors_spec`).
-/
import BittyAi.Lib.EarlyExit
import BittyAi.Mcp.Tools

namespace BittyAi.Mcp

open Lib BittyAi.Runtime List Option

variable {cwd : Text} {budgetMs : Nat} {wire wire' : Wire} {surfaced : List Text}

/-! ## The wire during a wait -/

variable {raws : List RawMcpTool}

end BittyAi.Mcp
