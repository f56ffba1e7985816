/-
BittyAi.Runtime.TurnAttributionTheorems — what the agent records for an executor answer
outside the contract of the bus.

An answer that is not `Reported` ends the turn at once: the records of the agent when the
turn is over are those it had when the executor was called, and one more (`Concluded`).
-/
import BittyAi.Runtime.TurnTheorems

namespace BittyAi.Runtime

open Lib Lib.Exiting ToolBus List

variable {E : Type}

/-! ## Unreported answers -/

def Entry.Harmless (e : Entry E) : Prop :=
  ∀ call ctx answer, e.event = .execute call ctx answer → ToolBus.Reported answer

/-- One record and one usage row for the call of `e`. -/
def AttributedOnce (e : Entry E) (w : World E) (call : ToolCall) (ctx : ExecutionContext)
    (status : ToolStatus) (disposition : ResultDisposition) : Prop :=
  w.agent.executions =
      e.agent.executions ++ [⟨ctx.executionId, call.name, status, disposition⟩] ∧
    ∃ row : UsageEvent, row.executionId = ctx.executionId ∧ row.status = status ∧
      row.resultDisposition = disposition ∧
      w.agent.tools.usage = e.agent.tools.usage.push row

def AttributedUnseen (e : Entry E) (w : World E) (call : ToolCall) (ctx : ExecutionContext)
    (status : ToolStatus) (disposition : ResultDisposition) : Prop :=
  w.agent.executions =
      e.agent.executions ++ [⟨ctx.executionId, call.name, status, disposition⟩] ∧
    w.agent.tools.usage = e.agent.tools.usage

variable {w : World E} {call : ToolCall} {ctx : ExecutionContext}

theorem AttributedOnce.status_eq {e : Entry E} {status status' : ToolStatus}
    {disposition disposition' : ResultDisposition}
    (h : AttributedOnce e w call ctx status disposition)
    (h' : AttributedUnseen e w call ctx status' disposition') : status = status' := by
  have hrecords := h.1.symm.trans h'.1
  cases append_cancel_left hrecords
  rfl

def Attributed (e : Entry E) (w : World E) (call : ToolCall) (ctx : ExecutionContext)
    (answer : Except ToolError ToolSuccess) : Prop :=
  match executionOf ctx.executionId call answer with
  | .ok execution => AttributedOnce e w call ctx execution.status execution.resultDisposition
  | .error error =>
    AttributedUnseen e w call ctx (.failed (boundReason error.normalized.display)) .accepted

/-- The trace since `start` has no unreported answer. -/
structure Untroubled (start w : World E) : Prop where
  grown : start.trace.length ≤ w.trace.length
  harmless : ∀ e ∈ w.since start, e.Harmless

def Concluded (start w : World E) : Prop :=
  ∀ e ∈ w.since start, ∀ call ctx answer, e.event = .execute call ctx answer →
    ¬ ToolBus.Reported answer → Attributed e w call ctx answer

variable {start : World E}

theorem Untroubled.concluded (h : Untroubled start w) : Concluded start w :=
  fun e he call ctx answer hevent hnot => absurd (h.harmless e he call ctx answer hevent) hnot

variable {w' : World E}

theorem Untroubled.grow (h : Untroubled start w) {more : List (Entry E)}
    (htrace : w'.trace = w.trace ++ more) (hmore : ∀ e ∈ more, e.Harmless) :
    Untroubled start w' where
  grown := World.grown_append h.grown htrace
  harmless := by
    rw [World.forall_since h.grown htrace]
    exact ⟨h.harmless, hmore⟩

theorem Untroubled.same (h : Untroubled start w)
    (htrace : w'.trace = w.trace) : Untroubled start w' :=
  h.grow (by rw [htrace, append_nil]) (by simp)

theorem Untroubled.inert (start : World E) : Turn.Inert (Untroubled start) where
  quiet h htrace hquiet _ _ := by
    refine h.grow htrace ?_
    intro e he call ctx answer hevent
    have hnot := hquiet e he
    rw [hevent] at hnot
    exact hnot.elim
  attributed h _ := h.grow rfl (by simp [Entry.Harmless])

/-! ## A dispatch -/

variable {answer : Except ToolError ToolSuccess}

namespace Turn

theorem contacted_trace {executor : ToolExecutor E}
    {base : AuthBase} {id : ExecutionId} {nowMs : Nat} {s₀ s : Shared E} (hlog : s₀.log = [])
    (h : ToolBus.Contacted w.agent.tools executor call base id nowMs s₀ s answer) :
    ∃ (gates : List (Entry E)) (last : Entry E),
      (w.absorb s).trace = w.trace ++ (gates ++ [last]) ∧ (∀ e ∈ gates, e.Harmless) ∧
      last.agent = w.agent ∧ last.event = .execute call ⟨id, nowMs⟩ answer := by
  obtain ⟨gates, last, hcontacts, hgates, hlast⟩ := h.log
  refine ⟨gates.map fun c => ⟨c, w.agent⟩, ⟨last, w.agent⟩, ?_, ?_, rfl, hlast⟩
  · rw [absorb_trace (by rw [hcontacts, hlog]; rfl), map_append, map_singleton]
  · intro e he call' ctx' answer' hevent
    obtain ⟨c, hc, rfl⟩ := mem_map.mp he
    have hgate := hgates c hc
    rw [show c.event = _ from hevent] at hgate
    exact hgate.elim

theorem concluded_of_last (h : Untroubled start w)
    {gates : List (Entry E)} {last : Entry E} {record : ExecutionRecord} {mark : Entry E}
    (htrace : w'.trace = w.trace ++ (gates ++ [last]) ++ [mark])
    (hgates : ∀ e ∈ gates, e.Harmless) (hmark : mark.event = .attributed record)
    (hlast : last.event = .execute call ctx answer)
    (hattributed : Attributed last w' call ctx answer) : Concluded start w' := by
  intro e he call' ctx' answer' hevent hnot
  rw [append_assoc] at htrace
  rw [World.since_append h.grown htrace] at he
  simp only [mem_append, mem_singleton] at he
  rcases he with he | (he | rfl) | rfl
  · exact absurd (h.harmless e he call' ctx' answer' hevent) hnot
  · exact absurd (hgates e he call' ctx' answer' hevent) hnot
  · rw [hlast] at hevent
    cases hevent
    exact hattributed
  · rw [hmark] at hevent
    cases hevent

theorem dispatchCall_untroubled {args : TurnArgs E} {messages : List Message}
    (h : Untroubled start w) :
    wp (dispatchCall args messages call) (fun _ => Untroubled start)
      (fun _ => Concluded start) w := by
  have hinert := Untroubled.inert start
  have hrecord : ∀ {w' : World E} {execution : ToolExecution}, Untroubled start w' →
      w'.agent.executions.length < maxExecutionsPerAgent →
      wp (recordOutcome args execution) (fun _ => Untroubled start)
        (fun _ => Concluded start) w' := fun h' hroom =>
    wp_mono (hinert.recordOutcome h' hroom) (fun _ _ h' => h') fun _ _ h' => h'.concluded
  refine wp_dispatchCall ?_ ?_ ?_
  · exact fun _ => h.concluded
  · exact fun _ => (h.same rfl).concluded
  · intro result bus s _ hroom hcase
    cases hcase with
    | refusal consulted =>
      have hrefused := hinert.consulted h rfl consulted
      refine wp_concludeDispatch ?_ ?_ ?_
      · exact fun e he => nomatch he
      · exact fun execution cause _ _ => (hrefused.grow rfl (by simp [Entry.Harmless])).concluded
      · exact fun execution _ _ _ => hrecord (hrefused.same rfl) hroom
    | @contact answer _ contacted =>
      obtain ⟨gates, last, htrace, hgates, hagent, hlast⟩ := contacted_trace rfl contacted
      refine wp_concludeDispatch ?_ ?_ ?_
      · intro e hresult
        refine concluded_of_last h (congrArg (· ++ [_]) htrace) hgates rfl hlast ?_
        simp only [Attributed, hresult, AttributedUnseen, hagent]
        exact ⟨rfl, by simp [afterContact, hresult, World.attribute, World.note]⟩
      · intro execution cause hresult hrejected
        refine concluded_of_last h (congrArg (· ++ [_]) htrace) hgates rfl hlast ?_
        obtain ⟨hid, htool, -⟩ := executionOf_ok hresult
        simp only [Attributed, hresult, AttributedOnce, hagent]
        refine ⟨?_, ?_⟩
        · simp [World.attribute, World.note, ToolExecution.record, hid, htool, World.absorb]
        · refine ⟨w.agent.tools.usageRow call w.session.authBase args.nowMs execution, hid, rfl,
            rfl, ?_⟩
          simp only [World.attribute, World.note, afterContact, hresult]
          rfl
      · intro execution hresult _ haccepted
        have hreported := (reported_iff _ call).mpr ⟨execution, hresult, haccepted⟩
        refine hrecord (h.grow htrace ?_) hroom
        rw [forall_mem_append]
        refine ⟨hgates, ?_⟩
        intro e he call' ctx' answer' hevent
        rw [mem_singleton.mp he, hlast] at hevent
        cases hevent
        exact hreported

end Turn

/-! ## A turn -/

/-- Every answer outside the contract of the bus is attributed at the end of the
turn, as `dispatch` mapped it. -/
theorem runTurn_attributes (args : TurnArgs E) (w : World E) (e : Entry E)
    (he : e ∈ turnEntries args w) (hevent : e.event = .execute call ctx answer)
    (hnot : ¬ ToolBus.Reported answer) : Attributed e (runTurn args w).2 call ctx answer := by
  have hstart : Untroubled w w := ⟨Nat.le_refl _, by simp [World.since]⟩
  have hbody : wp (Turn.body args) (fun _ _ => False) (fun _ => Concluded w) w := by
    refine Turn.wp_body ?_ ?_ ?_ ?_
    · exact fun _ => hstart.concluded
    · exact fun _ _ => hstart.concluded
    · exact fun error advisory artifacts done rest _ _ _ _ => (hstart.same rfl).concluded
    · intro assembled artifacts _ _ _
      refine (Untroubled.inert w).rounds (fun _ _ h => h.concluded) ?_ _ _ (hstart.same rfl)
      exact fun call messages w' h => Turn.dispatchCall_untroubled h
  exact runTurn_of_wp hbody e he call ctx answer hevent hnot

end BittyAi.Runtime
