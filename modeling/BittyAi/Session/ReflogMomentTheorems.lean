/-
BittyAi.Session.ReflogMomentTheorems — which moments of the branch verbs read back.

A verb takes a moment as a `u64`, writes it as an `i64`, and every reader refuses a negative
one. So a moment beyond `i64::MAX` is accepted and makes the reflog unreadable.
-/
import BittyAi.Session.FastForwardTheorems
import BittyAi.Session.ReflogTheorems

namespace BittyAi.Session

open Lib Exiting ContentStore List

/-! ## Readers -/

section Readers

variable {store : ContentStore} {rows : List ReflogRow} {name : String}

end Readers

/-! ## Verbs -/

section Verbs

variable {store store' : ContentStore} {name : String} {atMs : UInt64}

/-- The newest entry of the branch has the moment, and no reader of the reflog finds it
corrupt. -/
structure ReadsBack (store : ContentStore) (name : String) (atMs : UInt64) : Prop where
  newest : ∀ limit, 0 < limit → ∃ entry entries,
    readReflog name limit store = .ok (entry :: entries) ∧ entry.atMs = atMs
  dumped : ∃ entries, dumpReflogAll store = .ok entries
  pruned : ∀ other olderThanMs maxRows tombstoneGraceMs nowMs,
    (pruneReflog other olderThanMs maxRows tombstoneGraceMs nowMs store).1 ≠ .error .corrupt

end Verbs

end BittyAi.Session
