import Libmacro.Threads.Program

/-! # Who writes the interruptor, and who the registrations

`_interruptor` is written at nine points of the program: by `setInterruptor` of a client, of
`consumeInterrupt` and of a reset thread, by `dequeue`, by `start`, and by the assignment of
`copy`. `Thread.Step.writer` says that no other step changes it. The dispatchers are changed by
the `applyDispatch()` of `setInterruptor` and of `copy`, by the setters, and by
`disableEverything`: `Thread.Step.registrar`. -/

namespace Libmacro

/-- The access may write the interruptor of the macro: by `setInterruptor`, by `dequeue`, in
`start`, or as a copy. -/
def Access.writesInterruptor : Access → Bool
  | writeInterruptor _ | storeInterruptor _ | assign _ => true
  | _ => false

/-- An access that does not write the interruptor of its macro leaves it as it was. -/
theorem Access.interruptor_eq {m : MacroId} {mem mem' : Memory} {a : Access}
    (ha : a.apply m mem = some mem') (h : a.writesInterruptor = false) :
    (mem'.macros m).interruptor = (mem.macros m).interruptor := by
  rw [apply_interruptor ha]
  cases a <;> first | rfl | cases h

/-- The threads that write the interruptor, each with the access that does it. -/
inductive Thread.Writer : Thread → Access → Prop
  | cancel {m : MacroId} : Writer (call m (.start .cancel)) (.writeInterruptor .continue)
  | consume {m : MacroId} {o : Option ThreadId} {inLoop : Bool} {prev : Interrupt} :
    Writer (worker m o (.consume inLoop (.set (.store prev)))) (.storeInterruptor .continue)
  | call {m : MacroId} {val prev : Interrupt} :
    Writer (call m (.setInterruptor val (.store prev))) (.storeInterruptor val)
  | reset {m : MacroId} {o : ThreadId} {prev : Interrupt} :
    Writer (reset m o (.set (.store prev))) (.storeInterruptor .continue)
  | resetDequeue {m : MacroId} {o : ThreadId} {prev : Interrupt} :
    Writer (reset m o (.dequeue prev .interruptor)) (.writeInterruptor .interruptAll)
  | resetClear {m : MacroId} {o : ThreadId} {prev : Interrupt} :
    Writer (reset m o (.clear prev (.dequeue .interruptor))) (.writeInterruptor .interruptAll)
  | assign {m other : MacroId} : Writer (call m (.copy other .assign)) (.assign other)
  | copy {m other : MacroId} {p : DisablePc} :
    Writer (call m (.copy other (.disable p))) (.writeInterruptor .disable)
  | destroy {m : MacroId} {p : DisablePc} :
    Writer (call m (.destroy p)) (.writeInterruptor .disable)

section Edges

variable {mac : Macro} {mem : Memory} {m : MacroId} {i : ThreadId} {a : Access}
  {pool : List Thread}

/-- `limitMaxThreads` does not write the interruptor. -/
theorem LimitPc.Step.writes {p : LimitPc} {q : Option LimitPc} (h : p.Step mac a q) :
    a.writesInterruptor = false := by
  cases h <;> rfl

/-- A wait does not write the interruptor. -/
theorem WaitPc.Step.writes {b : Bool} {p : WaitPc} {q : Option WaitPc} (h : p.Step mac b a q) :
    a.writesInterruptor = false := by
  cases h <;> rfl

/-- `dequeue(val)` writes `val`, in its second step, and no other value. -/
theorem DequeuePc.Step.writes {val : Interrupt} {p : DequeuePc} {q : Option DequeuePc}
    (h : p.Step val a q) :
    a.writesInterruptor = false ∨ p = .interruptor ∧ a = .writeInterruptor val := by
  cases h with
  | interruptor => exact .inr ⟨rfl, rfl⟩
  | _ => exact .inl rfl

/-- `setInterruptor(val)` writes the interruptor only in its guarded store of `val`. -/
theorem SetPc.Step.writes {val : Interrupt} {p : SetPc val} {q : Option (SetPc val)}
    {ts : List Thread} {ev : List Event} (h : p.Step m mac i a q ts ev) :
    a.writesInterruptor = false ∨ ∃ prev, p = .store prev ∧ a = .storeInterruptor val := by
  cases h with
  | storeApply | storeReset | storeDone => exact .inr ⟨_, rfl, rfl⟩
  | _ => exact .inl rfl

/-- `clearThreadsSticky(clearType)` writes nothing but `clearType`, as often as it dequeues. -/
theorem StickyPc.Step.writes {clearType : Interrupt} {p : StickyPc} {q : Option StickyPc}
    (h : p.Step mac clearType a q) :
    a.writesInterruptor = false ∨ a = .writeInterruptor clearType := by
  cases h with
  | dequeue h | dequeued h => exact h.writes.imp_right And.right
  | wait h | waited h => exact .inl h.writes
  | _ => exact .inl rfl

/-- `clearThreads(clearType)` writes `clearType`; in its `dequeue` only, when it is not sticky. -/
theorem ClearPc.Step.writes {clearType : Interrupt} {stickyInterrupt : Bool}
    {p : ClearPc stickyInterrupt} {q : Option (ClearPc stickyInterrupt)}
    (h : p.Step pool mac i clearType a q) :
    a.writesInterruptor = false ∨ a = .writeInterruptor clearType ∧
      (stickyInterrupt = false → p = .dequeue .interruptor) := by
  cases h with
  | dequeue h | dequeued h | dequeuedSticky h =>
    rcases h.writes with hw | ⟨rfl, ha⟩
    · exact .inl hw
    · exact .inr ⟨ha, fun _ => rfl⟩
  | wait h | waited h => exact .inl h.writes
  -- a sticky clear is none of a reset thread's
  | @sticky hs _ _ _ h | @cleared hs _ _ h =>
    refine h.writes.imp_right fun ha => ⟨ha, fun hns => ?_⟩
    rw [hs] at hns
    cases hns
  | _ => exact .inl rfl

/-- `disableEverything` writes nothing but `DISABLE` into the interruptor. -/
theorem DisablePc.Step.writes {p : DisablePc} {q : Option DisablePc}
    (h : p.Step pool mac i a q) :
    a.writesInterruptor = false ∨ a = .writeInterruptor .disable := by
  cases h with
  | dequeue h | dequeued h => exact h.writes.imp_right And.right
  | remove => exact .inl rfl
  | clear h | cleared h => exact h.writes.imp_right And.left

/-- `start` writes the interruptor only where it replaces `INTERRUPT` by `CONTINUE`. -/
theorem StartPc.Step.writes {w : ThreadId} {p : StartPc} {q : Option StartPc} {ts : List Thread}
    {ev : List Event} (h : p.Step mem m i w a q ts ev) :
    a.writesInterruptor = false ∨ p = .cancel ∧ a = .writeInterruptor .continue := by
  cases h with
  | incLimit h | incLimited h | limit h | limited h => exact .inl h.writes
  | cancel => exact .inr ⟨rfl, rfl⟩
  | _ => exact .inl rfl

/-- `copy(other)` writes `DISABLE`, and then what `other` has. -/
theorem CopyPc.Step.writes {other : MacroId} {p : CopyPc} {q : Option CopyPc}
    (h : p.Step pool mac m other i a q) :
    a.writesInterruptor = false ∨ (∃ p', p = .disable p' ∧ a = .writeInterruptor .disable) ∨
      p = .assign ∧ a = .assign other := by
  cases h with
  | disable h | disabled h => exact h.writes.imp_right fun ha => .inl ⟨_, rfl, ha⟩
  | limit h | limited h => exact .inl h.writes
  | assign => exact .inr (.inr ⟨rfl, rfl⟩)
  | _ => exact .inl rfl

/-- **Who writes the interruptor**: a step that writes it is one of the nine. -/
theorem Thread.Step.writer {c : Interleaving.Config Memory Thread} {t : Thread} {mv : Move}
    (h : t.Step c i mv) : mv.access.writesInterruptor = false ∨ t.Writer mv.access := by
  cases h with
  | worker h =>
    cases h with
    | limit h | limited h => exact .inl h.writes
    | consumeSet h | consumed h =>
      rcases h.writes with hw | ⟨prev, rfl, rfl⟩
      · exact .inl hw
      · exact .inr .consume
    | pauseWait h | pauseOver h => exact .inl h.writes
    -- both guarded tests only read
    | notInterrupted _ hp => rcases hp with ⟨-, rfl⟩ | ⟨-, rfl⟩ <;> exact .inl rfl
    | _ => exact .inl rfl
  | reset h =>
    cases h with
    | dequeue h | dequeued h =>
      rcases h.writes with hw | ⟨rfl, rfl⟩
      · exact .inl hw
      · exact .inr .resetDequeue
    | clear h | cleared h =>
      rcases h.writes with hw | ⟨rfl, hp⟩
      · exact .inl hw
      · obtain rfl := hp rfl
        exact .inr .resetClear
    | set h | setDone h =>
      rcases h.writes with hw | ⟨prev, rfl, rfl⟩
      · exact .inl hw
      · exact .inr .reset
    | _ => exact .inl rfl
  | call h =>
    cases h with
    | start h | started h =>
      rcases h.writes with hw | ⟨rfl, rfl⟩
      · exact .inl hw
      · exact .inr .cancel
    | setInterruptor h | setDone h =>
      rcases h.writes with hw | ⟨prev, rfl, rfl⟩
      · exact .inl hw
      · exact .inr .call
    | limit h | limited h => exact .inl h.writes
    | copy h | copied h =>
      rcases h.writes with hw | ⟨p', rfl, rfl⟩ | ⟨rfl, rfl⟩
      · exact .inl hw
      · exact .inr .copy
      · exact .inr .assign
    | destroy h | destroyed h =>
      rcases h.writes with hw | rfl
      · exact .inl hw
      · exact .inr .destroy
    | _ => exact .inl rfl

end Edges

/-! ## Registrations -/

/-- The access may add or remove registrations in the dispatchers. -/
def Access.registers : Access → Bool
  | block _ | removeDispatch => true
  | _ => false

/-- An access that does not register leaves the dispatchers as they were. -/
theorem Access.dispatchers_eq {m : MacroId} {mem mem' : Memory} {a : Access}
    (ha : a.apply m mem = some mem') (h : a.registers = false) :
    mem'.dispatchers = mem.dispatchers := by
  refine apply_dispatchers ha ?_ ?_
  · rintro rfl
    cases h
  · rintro b rfl
    cases h

/-- `applyDispatch()` of `setInterruptor` comes next, in a block of its own. -/
def SetPc.applies {val : Interrupt} : SetPc val → Bool
  | apply _ _ => true
  | _ => false

/-- `applyDispatch()` of a `setInterruptor` of macro `m` comes next: a client's, that of
`consumeInterrupt`, or that of a reset thread. -/
def Thread.applies (m : MacroId) : Thread → Bool
  | worker m' _ (.consume _ (.set p)) => m' = m ∧ p.applies
  | reset m' _ (.set p) => m' = m ∧ p.applies
  | call m' (.setInterruptor _ p) => m' = m ∧ p.applies
  | _ => false

/-- The threads that change the registrations outside of `setInterruptor`: the setters, `copy` and
the destructor. -/
def Thread.configures : Thread → Bool
  | call _ (.block _) | call _ (.copy _ _) | call _ (.destroy _) => true
  | _ => false

section Edges

variable {mac : Macro} {mem : Memory} {m : MacroId} {i : ThreadId} {a : Access}
  {pool : List Thread}

/-- `limitMaxThreads` registers nothing. -/
theorem LimitPc.Step.registers {p : LimitPc} {q : Option LimitPc} (h : p.Step mac a q) :
    a.registers = false := by
  cases h <;> rfl

/-- A wait registers nothing. -/
theorem WaitPc.Step.registers {b : Bool} {p : WaitPc} {q : Option WaitPc} (h : p.Step mac b a q) :
    a.registers = false := by
  cases h <;> rfl

/-- `dequeue` registers nothing. -/
theorem DequeuePc.Step.registers {val : Interrupt} {p : DequeuePc} {q : Option DequeuePc}
    (h : p.Step val a q) : a.registers = false := by
  cases h <;> rfl

/-- `setInterruptor` changes registrations at its `applyDispatch()`, and only there. -/
theorem SetPc.Step.registers {val : Interrupt} {p : SetPc val} {q : Option (SetPc val)}
    {ts : List Thread} {ev : List Event} (h : p.Step m mac i a q ts ev) :
    a.registers = false ∧ p.applies = false ∨ a = .block .applyDispatch ∧ p.applies = true := by
  cases h with
  | applyReset | applyDone => exact .inr ⟨rfl, rfl⟩
  | _ => exact .inl ⟨rfl, rfl⟩

/-- `start` registers nothing: it works on the counters and the threads. -/
theorem StartPc.Step.registers {w : ThreadId} {p : StartPc} {q : Option StartPc}
    {ts : List Thread} {ev : List Event} (h : p.Step mem m i w a q ts ev) :
    a.registers = false := by
  cases h with
  | incLimit h | incLimited h | limit h | limited h => exact h.registers
  | _ => rfl

/-- `clearThreads`, in a reset thread, registers nothing. -/
theorem ClearPc.Step.registers {clearType : Interrupt} {p : ClearPc false}
    {q : Option (ClearPc false)} (h : p.Step pool mac i clearType a q) : a.registers = false := by
  cases h with
  | dequeue h | dequeued h | dequeuedSticky h => exact h.registers
  | wait h | waited h => exact h.registers
  | @sticky hs | @cleared hs => cases hs
  | _ => rfl

/-- **Who registers**: the setters, `copy` and the destructor apart, a step changes the
registrations when it is the `applyDispatch()` of a `setInterruptor`, and only then. -/
theorem Thread.Step.registrar {c : Interleaving.Config Memory Thread} {t : Thread} {mv : Move}
    (h : t.Step c i mv) (hc : t.configures = false) :
    mv.access.registers = false ∧ t.applies t.macroId = false ∨
      mv.access = .block .applyDispatch ∧ t.applies t.macroId = true := by
  cases h with
  | worker h =>
    cases h with
    | limit h | limited h => exact .inl ⟨h.registers, rfl⟩
    | consumeSet h | consumed h => simpa [applies] using h.registers
    | pauseWait h | pauseOver h => exact .inl ⟨h.registers, rfl⟩
    | notInterrupted _ hp => rcases hp with ⟨rfl, rfl⟩ | ⟨rfl, rfl⟩ <;> exact .inl ⟨rfl, rfl⟩
    | _ => exact .inl ⟨rfl, rfl⟩
  | reset h =>
    cases h with
    | dequeue h | dequeued h | clear h | cleared h => exact .inl ⟨h.registers, rfl⟩
    | set h | setDone h => simpa [applies] using h.registers
    | _ => exact .inl ⟨rfl, rfl⟩
  | call h =>
    cases h with
    | start h | started h | limit h | limited h => exact .inl ⟨h.registers, rfl⟩
    | setInterruptor h | setDone h => simpa [applies] using h.registers
    -- the threads that are set apart
    | copy | copied | destroy | destroyed | block => cases hc
    | _ => exact .inl ⟨rfl, rfl⟩

end Edges

end Libmacro
