import Libmacro.Threads.EveryStart
import Libmacro.Threads.GlobalSlots

/-! # One start, one pass

A macro that is started once has nobody who competes for its queue, and no order of the steps turns
the start away or loses its entry, as long as there is a slot for each start that the clients call,
on this macro and on the others. A start stands for its worker until it has created it
(`Thread.claim`), so that the macro has at most one of the two. `played_once`: when the threads of a
macro that was started once at most have ended, its list has been sent exactly as often as it was
started. -/

namespace Libmacro

open Interleaving

/-- The start has still to create its worker, or to give its slot back. -/
def StartPc.claims : StartPc → ℕ
  | lock | switch | roomTest | reserve | incTest | increment | incLimit _ | retTest | zeroTest
  | refuse | spawn | abandon => 1
  | _ => 0

/-- Of the calls only `start` creates workers. -/
def CallPc.claims : CallPc → ℕ
  | start p => p.claims
  | _ => 0

/-- The thread is a worker, or a start that has still to create one. -/
def Thread.claim : Thread → ℕ
  | worker _ _ _ => 1
  | reset _ _ _ => 0
  | call _ p => p.claims

/-- The claim of the thread, when it is a thread of macro `m`. -/
abbrev Thread.claimOn (m : MacroId) : Thread → ℕ :=
  onMacro m (fun _ _ => 1) (fun _ => 0) CallPc.claims

/-- A start of macro `m` that has still to create its worker. -/
abbrev Thread.pending (m : MacroId) : Thread → ℕ :=
  onMacro m (fun _ _ => 0) (fun _ => 0) CallPc.claims

/-- The thread is a client's call, which may have returned. -/
def Thread.isCall : Thread → ℕ
  | call _ _ => 1
  | _ => 0

/-- The clients start macros, macro `m` once at most, and call no more starts than there are
slots; nothing of macro `m` throws. -/
def startsOnce (m : MacroId) (c : Config Memory Thread) : Label Thread Bool → Bool
  | .call (.call m' (.start .lock)) =>
    (m' ≠ m ∨ ∀ t ∈ c.pool, t.macroId ≠ m) ∧ weight Thread.isCall c.pool < c.shared.threadLimit
  | .call _ => false
  | .step i k => (c.pool[i]?).all fun t => t.macroId ≠ m || k

/-- The start has put no entry into the queue yet. -/
def StartPc.early : StartPc → Bool
  | lock | switch | roomTest | reserve | incTest | increment => true
  | _ => false

/-- The thread is a start that has put no entry into the queue yet. -/
def Thread.early : Thread → Bool
  | call _ (.start p) => p.early
  | _ => false

/-- The thread relies on an entry in the queue: a start on the one that it has put there, a worker
on the one that it has seen. -/
def Thread.needsEntry : Thread → Bool
  | worker _ _ .decTest | worker _ _ .decrement => true
  | call _ (.start p) => p.admitted ≠ 0
  | _ => false

/-! ## The clients -/

section Clients

variable {m : MacroId} {c : Config Memory Thread} {l : Label Thread Bool} {t : Thread}

/-- The clients call nothing but `start`. -/
theorem startsOnce.call_cases (h : startsOnce m c (.call t) = true) :
    ∃ m', t = .call m' (.start .lock) ∧ (m' ≠ m ∨ ∀ u ∈ c.pool, u.macroId ≠ m) ∧
      weight Thread.isCall c.pool < c.shared.threadLimit := by
  unfold startsOnce at h
  split at h
  · next heq =>
    obtain ⟨hnone, hlt⟩ := of_decide_eq_true h
    exact ⟨_, Label.call.inj heq, hnone, hlt⟩
  · cases h
  · next heq => cases heq

/-- Such a run makes no call but starts, on any macro. -/
theorem startsOnce.only (h : startsOnce m c l = true) (m' : MacroId) :
    onlyCalls m' (· = .start) false l = true := by
  cases l with
  | step => rfl
  | call t =>
    obtain ⟨m'', rfl, -⟩ := startsOnce.call_cases h
    simp [onlyCalls, Thread.only, CallPc.kind]

/-- Such a run does not change the global limit of threads. -/
theorem startsOnce.fixedLimit (h : startsOnce m c l = true) : fixedLimit l = true := by
  cases l with
  | step => rfl
  | call t =>
    obtain ⟨m', rfl, -⟩ := startsOnce.call_cases h
    rfl

end Clients

/-! ## Claims -/

section Claims

variable {mem : Memory} {m : MacroId} {i w : ThreadId} {a : Access} {pool : List Thread}
  {c : Config Memory Thread} {t : Thread} {mv : Move}

/-- `start` gives its claim to the worker. -/
theorem StartPc.Step.claims_le {p : StartPc} {q : Option StartPc} {ts : List Thread}
    {ev : List Event} (h : p.Step mem m i w a q ts ev) :
    q.elim 0 StartPc.claims + weight Thread.claim ts ≤ p.claims := by
  cases h with
  | spawn => simp [claims, Thread.claim]
  | _ => first | exact Nat.le_refl _ | exact Nat.zero_le _

/-- A step of a call makes no new claim: `start` passes its own on to the worker that it creates,
and the other calls have none. -/
theorem CallPc.Step.claims_le {p p' : CallPc} {ts : List Thread} {ev : List Event}
    (h : p.Step mem pool m i a p' ts ev) : p'.claims + weight Thread.claim ts ≤ p.claims := by
  cases h with
  | start h | started h => exact h.claims_le
  | setInterruptor h | setDone h => cases h <;> exact Nat.le_refl _
  | _ => exact Nat.le_refl _

/-- **No step makes a claim**: what a thread and those it creates claim together, it has claimed
before. -/
theorem Thread.Step.claim_le (h : t.Step c i mv) :
    mv.next.claim + weight Thread.claim mv.spawned ≤ t.claim := by
  cases h with
  | worker | reset => exact Nat.le_refl _
  | call h => exact h.claims_le

/-- No step makes or ends a call. -/
theorem Thread.Step.isCall_eq (h : t.Step c i mv) :
    mv.next.isCall = t.isCall ∧ weight Thread.isCall mv.spawned = 0 := by
  refine ⟨by cases h <;> rfl, weight_eq_zero_iff.mpr fun u hu => ?_⟩
  rcases h.of_mem_spawned hu with rfl | rfl <;> rfl

/-- A thread with a slot has a claim. -/
theorem Thread.slots_le_claim (t : Thread) : t.slots ≤ t.claim := by
  cases t with
  | worker m o p =>
    cases o with
    | none => exact Nat.zero_le _
    | some o => cases p <;> simp [slots, live, reserved, claim]
  | reset => exact Nat.le_refl _
  | call m p =>
    cases p with
    | start p =>
      cases p <;>
        simp [slots, live, reserved, claim, StartPc.reserved, CallPc.claims, StartPc.claims]
    | _ => exact Nat.le_refl _

/-- The claim of a thread is on its macro. -/
theorem Thread.claimOn_self (t : Thread) : t.claimOn t.macroId = t.claim := by
  cases t <;> simp [macroId, claim]

/-- A thread has no claim but on its macro. -/
theorem Thread.claimOn_le (t : Thread) : t.claimOn m ≤ t.claim := by
  by_cases hm : t.macroId = m
  · exact hm ▸ t.claimOn_self.le
  · rw [Thread.claimOn, Thread.onMacro_of_ne hm]
    exact Nat.zero_le _

/-- A worker that is counted has a claim. -/
theorem Thread.counted_le_claimOn (t : Thread) : t.counted m ≤ t.claimOn m := by
  by_cases hm : t.macroId = m
  · subst hm
    cases t with
    | worker m o p => cases p <;> simp [macroId, RunPc.counted]
    | reset | call => simp [macroId]
  · rw [Thread.counted, Thread.onMacro_of_ne hm]
    exact Nat.zero_le _

end Claims

/-! ## The entry of the start -/

section Entry

variable {limit : ℕ} {signals : List (Option SignalId)} {mem mem' : Memory} {m : MacroId}
  {i w : ThreadId} {a : Access} {c : Config Memory Thread} {t : Thread} {mv : Move}

/-- Who has put no entry into the queue, or relies on one, has a claim. -/
theorem Thread.claim_of_early (h : t.early = true ∨ t.needsEntry = true) : t.claim = 1 := by
  cases t with
  | worker m o p => rfl
  | reset => simp [early, needsEntry] at h
  | call m p =>
    cases p with
    | start p => cases p <;> simp_all [early, needsEntry, claim, StartPc.early, StartPc.admitted,
        CallPc.claims, StartPc.claims]
    | _ => simp [early, needsEntry] at h

/-- A start comes to these points from such points. -/
theorem Thread.Step.early (h : t.Step c i mv) (hnext : mv.next.early = true) : t.early = true := by
  cases h with
  | worker | reset => cases hnext
  | call h =>
    cases h with
    | start h => cases h <;> first | rfl | cases hnext
    | _ => cases hnext

/-- A worker relies on an entry once it has seen one. -/
theorem RunPc.Step.queued_pos {p p' : RunPc} {ev : List Event} (h : p.Step mem m i a p' ev)
    (hnext : p' = .decTest ∨ p' = .decrement) : 0 < (mem.macros m).queued := by
  cases h with
  | notIdle h | accepted h => exact Int.not_le.mp h
  | notInterrupted h hp =>
    next inLoop p =>
    cases inLoop <;> simp at hnext
  | _ => simp at hnext

/-- Who comes to rely on an entry has put it there, or has seen it. -/
theorem Thread.Step.needsEntry (h : t.Step c i mv)
    (hroom : t = .call t.macroId (.start .incTest) →
      toUnsigned (c.shared.macros t.macroId).queued < (c.shared.macros t.macroId).threadMax)
    (hnext : mv.next.needsEntry = true) :
    t.needsEntry = true ∨ 0 < (c.shared.macros t.macroId).queued ∨ mv.access = .incQueued := by
  cases h with
  | @worker m o p p' a ev h =>
    refine .inr (.inl (h.queued_pos ?_))
    cases p' <;> simp_all [Thread.needsEntry]
  | reset => cases hnext
  | call h =>
    cases h with
    | start h =>
      cases h with
      | increment => exact .inr (.inr rfl)
      | noRoom h => exact absurd (hroom rfl) h
      | incLimit h | incLimited h => exact .inl rfl
      | _ => first | exact .inl rfl | cases hnext
    | _ => cases hnext

/-- **A start that is let in creates its worker**: it has one to create, or it creates it. -/
theorem CallPc.Step.claims_eq {pool : List Thread} {p p' : CallPc} {ts : List Thread}
    {ev : List Event} (h : p.Step mem pool m i a p' ts ev)
    (hv : (mem.macros m).interruptor = .continue) (hplain : p.plain = true)
    (hplain' : p'.plain = true)
    (hroom : p = .start .roomTest → (mem.macros m).threadCount < (mem.macros m).threadMax) :
    ev.countP (Event.isSpawn m) + p'.claims = p.claims := by
  cases h with
  | start h =>
    cases h with
    | spawn => simp [Event.isSpawn, claims, StartPc.claims]
    | disabled h => simp [hv] at h
    | full h => exact absurd (hroom rfl) h
    | interrupted | noSlot | above | zero | spawnThrows => cases hplain'
    | cancel | cancelNotify | refuse | abandon | fail | limit => cases hplain
    | _ => rfl
  | started h =>
    cases h with
    | leave => rfl
    | limited => cases hplain
  | _ => cases hplain

/-- **The queue moves in a step of one who has a claim**, and the entry that a thread relies on
afterwards is in the queue. -/
theorem Thread.PlayStep.relies (h : t.PlayStep (mem.macros m) m i w mv)
    (ha : mv.access.apply m mem = some mem') (hqueued : 0 ≤ (mem.macros m).queued) :
    (mem'.macros m).queued = (mem.macros m).queued ∨ t.claim = 1 ∧ mv.next.early = false ∧
      (mv.next.needsEntry = true → 0 < (mem'.macros m).queued) := by
  have hmoved := Access.apply_queued ha
  cases h with
  | quiet hplain hkeeps => exact .inl (Access.queued_of_keepsQueue ha hkeeps)
  | put =>
    refine .inr ⟨rfl, rfl, fun _ => ?_⟩
    simp only at hmoved
    omega
  | take => exact .inr ⟨rfl, rfl, nofun⟩
  | pass | deliver | spawn => exact .inl hmoved

/-- No step of a macro that is started only shows a start. -/
theorem Thread.PlayStep.countP_isStart {mac : Macro} (h : t.PlayStep mac m i w mv) :
    mv.events.countP (Event.isStart m) = 0 := by
  cases h <;> simp [Event.isStart]

/-- **A start that is let in creates its worker**, and nobody else creates one. -/
theorem Thread.Step.pending (h : t.Step c i mv)
    (hv : (c.shared.macros t.macroId).interruptor = .continue)
    (hplain : t.plain t.macroId = true) (hplain' : mv.next.plain t.macroId = true)
    (hroom : t = .call t.macroId (.start .roomTest) →
      (c.shared.macros t.macroId).threadCount < (c.shared.macros t.macroId).threadMax) :
    mv.events.countP (Event.isSpawn t.macroId) + mv.next.pending t.macroId =
      t.pending t.macroId := by
  cases h with
  | @worker m o p p' a ev h =>
    have hnone : ev.countP (Event.isSpawn m) = 0 := by
      cases h <;> simp [Event.isSpawn]
    simpa [Thread.macroId] using hnone
  | reset => simp [Thread.plain, Thread.macroId] at hplain
  | @call m p p' a ts ev h =>
    have hclaims := h.claims_eq hv (by simpa [Thread.plain, Thread.macroId] using hplain)
      (by simpa [Thread.plain, Thread.macroId] using hplain') fun hp => hroom (hp ▸ rfl)
    simpa [Thread.macroId] using hclaims

end Entry

/-- **What holds of a macro that is started once at most**, at any time of the run that has shown
`tr`. -/
structure OneStart (m : MacroId) (tr : List Event) (c : Config Memory Thread) : Prop where
  /-- There is one worker, or one start that has still to create it, or neither. -/
  claims : weight (Thread.claimOn m) c.pool ≤ 1
  empty : ∀ t ∈ c.pool, t.macroId = m → t.early = true → (c.shared.macros m).queued = 0
  filled : ∀ t ∈ c.pool, t.macroId = m → t.needsEntry = true → 0 < (c.shared.macros m).queued
  idle : (∀ t ∈ c.pool, t.macroId ≠ m) → (c.shared.macros m).queued = 0
  created : tr.countP (Event.isSpawn m) + weight (Thread.pending m) c.pool =
    tr.countP (Event.isStart m)

namespace OneStart

variable {limit : ℕ} {signals : List (Option SignalId)} {m : MacroId} {i j : ThreadId} {k : Bool}
  {t u : Thread} {tr ev : List Event} {c : Config Memory Thread}
  {e : Effect Memory Thread Event}

/-- **Nothing is turned away or lost** in a step of the macro. -/
theorem serves (h : OneStart t.macroId tr c)
    (hmac : (c.shared.macros t.macroId).Playable limit signals) (ht : c.pool[i]? = some t)
    (hslots : c.shared.activeThreadCount = weight Thread.slots c.pool)
    (hclaims : weight Thread.claim c.pool ≤ c.shared.threadLimit) :
    servesStart t.macroId c (.step i true) = true := by
  have hmem := List.mem_of_getElem? ht
  have hfilled := h.filled t hmem rfl
  have hempty := h.empty t hmem rfl
  unfold servesStart
  dsimp only
  rw [ht]
  split
  · next heq =>
    obtain rfl := Option.some.inj heq
    exact decide_eq_true (.inr (hfilled rfl))
  · next heq =>
    obtain rfl := Option.some.inj heq
    exact decide_eq_true (.inr (hfilled rfl))
  · next heq =>
    obtain rfl := Option.some.inj heq
    exact decide_eq_true (.inr (hfilled rfl))
  · next heq =>
    -- the start has no slot for its claim yet
    obtain rfl := Option.some.inj heq
    have hlt : weight Thread.slots c.pool < weight Thread.claim c.pool :=
      weight_lt_weight (fun u _ => u.slots_le_claim) hmem Nat.one_pos
    exact decide_eq_true (.inr (by omega))
  · next heq =>
    obtain rfl := Option.some.inj heq
    have hpos := hmac.threadMax
    refine decide_eq_true (.inr ?_)
    rw [hempty rfl]
    exact hpos
  · exact decide_eq_true (.inr rfl)
  · exact decide_eq_true (.inr rfl)
  · rfl

/-- Nobody else of the macro relies on the queue beside a thread with a claim. -/
theorem not_relies_of_ne (h : OneStart t.macroId tr c) (ht : c.pool[i]? = some t)
    (hclaim : t.claim = 1) (hu : c.pool[j]? = some u) (hji : j ≠ i) (hm : u.macroId = t.macroId) :
    u.early = false ∧ u.needsEntry = false := by
  have hother : u.claimOn t.macroId = 0 := by
    have hboth := add_le_weight (Thread.claimOn t.macroId) ht hu hji
    have hclaims := h.claims
    have hself := t.claimOn_self
    omega
  rw [← hm, Thread.claimOn_self] at hother
  constructor <;> by_contra hne
  · have := Thread.claim_of_early (.inl (Bool.not_eq_false _ ▸ hne))
    omega
  · have := Thread.claim_of_early (.inr (Bool.not_eq_false _ ▸ hne))
    omega

/-- **A call** is a start, of the macro only when it has no thread. -/
theorem call (h : OneStart m tr c) (he : t.entry = some ev)
    (hok : startsOnce m c (.call t) = true) :
    OneStart m (tr ++ ev) ⟨c.shared, c.pool ++ [t]⟩ := by
  obtain ⟨m', rfl, hnone, -⟩ := startsOnce.call_cases hok
  obtain rfl : ev = [.start m'] := (Option.some.inj he).symm
  have hclaims := h.claims
  have hcreated := h.created
  by_cases hm : m' = m
  · subst hm
    -- the macro's one start: nothing else of the macro is there
    have hnone := hnone.resolve_left (not_not_intro rfl)
    have hzero : weight (Thread.claimOn m') c.pool = 0 :=
      weight_eq_zero_iff.mpr fun u hu => Thread.onMacro_of_ne (hnone u hu)
    refine ⟨?_, fun u hu hm _ => h.idle hnone, fun u hu hm hneeds => ?_,
      fun hall => absurd rfl (hall _ (List.mem_append_right _ List.mem_cons_self)), ?_⟩
    · simp [hzero, CallPc.claims, StartPc.claims]
    · rcases List.mem_append.mp hu with hold | hnew
      · exact h.filled u hold hm hneeds
      · obtain rfl := List.mem_singleton.mp hnew
        simp [Thread.needsEntry, StartPc.admitted] at hneeds
    · simp [Event.isSpawn, Event.isStart, CallPc.claims, StartPc.claims] at hcreated ⊢
      omega
  -- another macro is started
  · have hne : (Thread.call m' (.start .lock)).macroId ≠ m := hm
    have hcases : ∀ u ∈ c.pool ++ [Thread.call m' (.start .lock)], u.macroId = m → u ∈ c.pool := by
      intro u hu hum
      rcases List.mem_append.mp hu with hold | hnew
      · exact hold
      · exact absurd hum (List.mem_singleton.mp hnew ▸ hne)
    refine ⟨?_, fun u hu hum => h.empty u (hcases u hu hum) hum,
      fun u hu hum => h.filled u (hcases u hu hum) hum,
      fun hall => h.idle fun u hu => hall u (List.mem_append_left _ hu), ?_⟩
    · have hzero : Thread.claimOn m (.call m' (.start .lock)) = 0 := Thread.onMacro_of_ne hne
      simpa only [weight_append, weight_cons, weight_nil, hzero, Nat.add_zero] using hclaims
    · have hzero : Thread.pending m (.call m' (.start .lock)) = 0 := Thread.onMacro_of_ne hne
      simp [Event.isSpawn, Event.isStart, hm, -Thread.onMacro_call, hzero]
      exact hcreated

/-- **A step of another macro's thread** changes nothing about the macro. -/
theorem step_of_ne (h : OneStart m tr c) (ht : c.pool[i]? = some t)
    (he : program.move c i k t = some e) (hm : t.macroId ≠ m) :
    OneStart m (tr ++ e.events) ⟨e.shared, c.pool.set i e.next ++ e.spawned⟩ := by
  obtain ⟨a, hs, -⟩ := step_of_program_move he
  have hmac : e.shared.macros m = c.shared.macros m := macros_of_ne he hm
  obtain ⟨hnext, hspawned⟩ := macroId_of_ne he hm
  -- no event is about the macro, and its threads are those that it had
  have hcount : ∀ p : Event → Bool, (∀ ev, p ev = true → ev.macroId? = some m) →
      (tr ++ e.events).countP p = tr.countP p := fun p hp => by
    rw [List.countP_append, show e.events.countP p = 0 from hs.countP_events_of_ne hp hm,
      Nat.add_zero]
  have hspawn := hcount (Event.isSpawn m) fun ev hev => by
    cases ev <;> simp_all [Event.isSpawn, Event.macroId?]
  have hstart := hcount (Event.isStart m) fun ev hev => by
    cases ev <;> simp_all [Event.isStart, Event.macroId?]
  have hold : ∀ u ∈ c.pool.set i e.next ++ e.spawned, u.macroId = m → u ∈ c.pool := by
    intro u hu hum
    rcases List.mem_append.mp hu with hset | hnew
    · rcases List.mem_or_eq_of_mem_set hset with hold | rfl
      · exact hold
      · exact absurd hum hnext
    · exact absurd hum (hspawned u hnew)
  refine ⟨?_, fun u hu hum hearly => ?_, fun u hu hum hneeds => ?_, fun hall => ?_, ?_⟩
  · rw [weight_onMacro_of_ne ht he hm]
    exact h.claims
  · rw [hmac]
    exact h.empty u (hold u hu hum) hum hearly
  · rw [hmac]
    exact h.filled u (hold u hu hum) hum hneeds
  · rw [hmac]
    refine h.idle fun u hu hum => ?_
    exact hall u (mem_set_append_of_ne e.next e.spawned ht hu (by rintro rfl; exact hm hum)) hum
  · rw [hspawn, hstart, weight_onMacro_of_ne ht he hm]
    exact h.created

/-- **A step of the macro's own thread** leaves the macro with its one start. -/
theorem step (h : OneStart t.macroId tr c)
    (hmac : (c.shared.macros t.macroId).Playable limit signals)
    (hcount : (c.shared.macros t.macroId).threadCount = weight (Thread.counted t.macroId) c.pool)
    (hplain : t.plain t.macroId = true) (ht : c.pool[i]? = some t)
    (he : program.move c i k t = some e) (hserved : servesStart t.macroId c (.step i k) = true) :
    OneStart t.macroId (tr ++ e.events) ⟨e.shared, c.pool.set i e.next ++ e.spawned⟩ := by
  have hmem := List.mem_of_getElem? ht
  obtain ⟨a, hplay, ha⟩ := play_of_move ht he hmac hplain hserved
  obtain ⟨a', hs, ha'⟩ := step_of_program_move he
  have hnew : ∀ u ∈ e.spawned, u.early = false ∧ u.needsEntry = false := fun u hu => by
    rcases hs.of_mem_spawned hu with rfl | rfl <;> exact ⟨rfl, rfl⟩
  have hrelies := hplay.relies ha hmac.queued
  simp only at hrelies
  -- who stays when the queue moves does not look at it
  have hold : ∀ j u, j ≠ i → c.pool[j]? = some u → u.macroId = t.macroId →
      u.early = true ∨ u.needsEntry = true →
        (e.shared.macros t.macroId).queued = (c.shared.macros t.macroId).queued := by
    intro j u hji hu hum hu'
    rcases hrelies with hq | ⟨hclaim, -⟩
    · exact hq
    · obtain ⟨hearly, hneeds⟩ := h.not_relies_of_ne ht hclaim hu hji hum
      simp [hearly, hneeds] at hu'
  refine ⟨?_, fun u hu hum hearly => ?_, fun u hu hum hneeds => ?_, fun hall => ?_, ?_⟩
  · have hclaims := h.claims
    have hle := hs.claim_le
    have hself := t.claimOn_self
    have hnext := e.next.claimOn_le (m := t.macroId)
    have hspawned : weight (Thread.claimOn t.macroId) e.spawned ≤ weight Thread.claim e.spawned :=
      weight_le_weight fun u _ => u.claimOn_le
    have hpool := weight_set_append (Thread.claimOn t.macroId) e.next e.spawned ht
    simp only at hle ⊢
    omega
  · obtain ⟨j, hj⟩ := List.getElem?_of_mem hu
    rcases getElem?_set_append_cases hj with ⟨-, rfl⟩ | ⟨hji, hj⟩ | hu
    · rcases hrelies with hq | ⟨-, hnext, -⟩
      · exact hq.trans (h.empty t hmem rfl (hs.early hearly))
      · exact absurd hearly (by simp [hnext])
    · exact (hold j u hji hj hum (.inl hearly)).trans
        (h.empty u (List.mem_of_getElem? hj) hum hearly)
    · exact absurd hearly (by simp [(hnew u hu).1])
  · obtain ⟨j, hj⟩ := List.getElem?_of_mem hu
    rcases getElem?_set_append_cases hj with ⟨-, rfl⟩ | ⟨hji, hj⟩ | hu
    · rcases hrelies with hq | ⟨-, -, hnext⟩
      · show 0 < (e.shared.macros t.macroId).queued
        have hroom : t = .call t.macroId (.start .incTest) →
            toUnsigned (c.shared.macros t.macroId).queued <
              (c.shared.macros t.macroId).threadMax := fun heq => by
          have hempty := h.empty t hmem rfl (by rw [heq]; rfl)
          rw [hempty]
          exact hmac.threadMax
        rcases hs.needsEntry hroom hneeds with ht' | hpos | hput
        · exact hq ▸ h.filled t hmem rfl ht'
        · exact hq ▸ hpos
        · have hmoved := Access.apply_queued ha'
          simp only at hput
          simp only [hput] at hmoved
          rw [hmoved]
          exact Int.lt_add_one_of_le hmac.queued
      · exact hnext hneeds
    · rw [hold j u hji hj hum (.inr hneeds)]
      exact h.filled u (List.mem_of_getElem? hj) hum hneeds
    · exact absurd hneeds (by simp [(hnew u hu).2])
  · have hself := hall _ (mem_set_append_self e.next e.spawned ht)
    exact absurd hs.macroId hself
  · have hpending := hs.pending hmac.interruptor hplain hplay.plain.1 ?_
    · have hspawned : weight (Thread.pending t.macroId) e.spawned = 0 :=
        hs.weight_spawned (fun _ => rfl) rfl
      have hpool := weight_set_append (Thread.pending t.macroId) e.next e.spawned ht
      have hstart := hplay.countP_isStart
      have hcreated := h.created
      simp only [List.countP_append] at hpending hstart ⊢
      omega
    · -- nobody is counted yet
      intro heq
      have hlt : weight (Thread.counted t.macroId) c.pool <
          weight (Thread.claimOn t.macroId) c.pool :=
        weight_lt_weight (fun u _ => u.counted_le_claimOn) hmem
          (by rw [heq]; simp [Thread.macroId, CallPc.claims, StartPc.claims])
      have hclaims := h.claims
      have hpos := hmac.threadMax
      omega

end OneStart

/-! ## Runs -/

section Runs

variable {mem : Memory} {m : MacroId} {c : Config Memory Thread} {tr : List Event}

/-- Without direct calls of `run` every slot that is given back has been reserved. -/
theorem accounted_of_startsOnce (hinit : mem.activeThreadCount = 0)
    (h : program.Run (fun c l => startsOnce m c l) (initial mem) tr c) : Accounted c := by
  have hrun := h.and_invariant
    (I := fun c => ∀ t ∈ c.pool, ∀ m, t.only m (· = .start) false = true)
    fun h t ht m' => only_of_run (fun _ _ ok => startsOnce.only ok m') (by simp) h t ht
  refine accounted_of_paired hinit (hrun.mono ?_)
  rintro c l ⟨ok, honly⟩
  refine ⟨startsOnce.fixedLimit ok, ?_⟩
  unfold pairedRelease
  split
  · split
    · next m' hi =>
      have hdirect := honly _ (List.mem_of_getElem? hi) m'
      simp [Thread.only] at hdirect
    · rfl
  · rfl

/-- **There is a slot for each claim**: each claim is that of a call. -/
theorem claims_le_of_run (h : program.Run (fun c l => startsOnce m c l) (initial mem) tr c) :
    weight Thread.claim c.pool ≤ c.shared.threadLimit := by
  have hlimit := h.and_invariant (I := fun c => c.shared.threadLimit = mem.threadLimit) fun h =>
    threadLimit_of_run (fun _ _ ok => startsOnce.fixedLimit ok) h
  have hclaims : weight Thread.claim c.pool ≤ weight Thread.isCall c.pool ∧
      weight Thread.isCall c.pool ≤ mem.threadLimit := by
    refine Machine.Run.invariant (P := fun _ c =>
      weight Thread.claim c.pool ≤ weight Thread.isCall c.pool ∧
        weight Thread.isCall c.pool ≤ mem.threadLimit) (by simp) ?_ ?_ hlimit
    · rintro _ c t ev ⟨hclaims, hcalls⟩ ⟨ok, heq⟩ -
      obtain ⟨m', rfl, -, hlt⟩ := startsOnce.call_cases ok
      simp only [weight_append, weight_cons, weight_nil, Thread.claim, Thread.isCall,
        CallPc.claims, StartPc.claims]
      omega
    · rintro _ c i k t e ⟨hclaims, hcalls⟩ - ht he
      obtain ⟨a, hs, -⟩ := step_of_program_move he
      have hclaim := hs.claim_le
      have hcall := hs.isCall_eq
      have hpool₁ := weight_set_append Thread.claim e.next e.spawned ht
      have hpool₂ := weight_set_append Thread.isCall e.next e.spawned ht
      simp only at hclaim hcall ⊢
      omega
  have heq := threadLimit_of_run (fun _ _ ok => startsOnce.fixedLimit ok) h
  omega

/-- **The macro keeps its one start**, which is served, in every state of a run. -/
theorem oneStart_of_run (hlimit : mem.threadLimit < 2 ^ 32) (hactive : mem.activeThreadCount = 0)
    (hmac : (mem.macros m).Settled mem.threadLimit) (hqueued : (mem.macros m).queued = 0)
    (hv : (mem.macros m).interruptor = .continue) (hsticky : (mem.macros m).sticky = false)
    (hsignals : (mem.macros m).signals ≠ [])
    (h : program.Run (fun c l => startsOnce m c l) (initial mem) tr c) :
    Played mem.threadLimit (mem.macros m).signals m tr c ∧ OneStart m tr c := by
  -- what is known of the limit, the mutex, the run count and the slots in every state of the run
  have hrun := h.and_invariant (I := fun c => c.shared.threadLimit = mem.threadLimit ∧
      (c.shared.macros m).locked.toNat = weight (Thread.holds m) c.pool ∧
      (c.shared.macros m).threadCount = weight (Thread.counted m) c.pool ∧
      c.shared.activeThreadCount = weight Thread.slots c.pool ∧
      weight Thread.claim c.pool ≤ c.shared.threadLimit) fun h =>
    ⟨threadLimit_of_run (fun _ _ ok => startsOnce.fixedLimit ok) h,
      locked_eq_weight m hmac.locked h,
      threadCount_eq_weight (fun _ _ ok => startsOnce.only ok m) rfl rfl hmac.threadCount h,
      (accounted_of_startsOnce hactive h).1.trans (weight_slots _).symm, claims_le_of_run h⟩
  have hplayable : (mem.macros m).Playable mem.threadLimit (mem.macros m).signals :=
    ⟨hv, hsticky, rfl, hsignals, hmac.queued, hmac.queued_le, hmac.threadMax, hmac.threadMax_le,
      hlimit⟩
  refine Machine.Run.invariant (P := fun tr c =>
    Played mem.threadLimit (mem.macros m).signals m tr c ∧ OneStart m tr c)
    ⟨⟨hplayable, by simp, by simp, by simp [hqueued], by simp, by simp [hqueued]⟩,
      ⟨by simp, by simp, by simp, fun _ => hqueued, by simp⟩⟩ ?_ ?_ hrun
  · rintro tr c t ev ⟨hplayed, hone⟩ ⟨ok, -⟩ he
    exact ⟨hplayed.call he (startsOnce.only ok m), hone.call he ok⟩
  · rintro tr c i k t e ⟨hplayed, hone⟩ ⟨ok, hlimit, hlocked, hcount, hslots, hclaims⟩ ht he
    by_cases hm : t.macroId = m
    · subst hm
      obtain rfl : k = true := by simpa [startsOnce, ht] using ok
      -- one start at most, and a slot for each call: nothing is turned away
      have hserved := hone.serves hplayed.playable ht hslots hclaims
      have hplain := hplayed.plain t (List.mem_of_getElem? ht)
      exact ⟨hplayed.step hlimit hlocked ht he hserved,
        hone.step hplayed.playable hcount hplain ht he hserved⟩
    · exact ⟨hplayed.step_of_ne ht he hm, hone.step_of_ne ht he hm⟩

/-- When the threads have ended, each start has created its worker. -/
theorem OneStart.countP_isSpawn (h : OneStart m tr c)
    (hended : ∀ t ∈ c.pool, t.macroId = m → t.ended = true) :
    tr.countP (Event.isSpawn m) = tr.countP (Event.isStart m) := by
  have hpending : weight (Thread.pending m) c.pool = 0 := by
    refine weight_eq_zero_iff.mpr fun t ht => ?_
    by_cases hm : t.macroId = m
    · have hend := hended t ht hm
      subst hm
      cases t with
      | worker | reset => simp [Thread.macroId]
      | call m p =>
        cases p with
        | returned => simp [Thread.macroId, CallPc.claims]
        | _ => cases hend
    · exact Thread.onMacro_of_ne hm
  have hcreated := h.created
  omega

/-- **Every start is played**, whatever the order of the steps. A settled, continuing macro that is
not sticky and has signals is started once at most, nothing of it throws, and nothing but starts is
called: when its threads have ended, the list has been sent as often as the macro was started, each
signal has been delivered as often as the list has it, and the queue is empty. -/
theorem played_once (hmem : mem.Settled) (hqueued : (mem.macros m).queued = 0)
    (hv : (mem.macros m).interruptor = .continue) (hsticky : (mem.macros m).sticky = false)
    (hsignals : (mem.macros m).signals ≠ [])
    (h : program.Run (fun c l => startsOnce m c l) (initial mem) tr c)
    (hended : ∀ t ∈ c.pool, t.macroId = m → t.ended = true) :
    tr.countP (Event.isPass m) = tr.countP (Event.isStart m) ∧
      (∀ s, tr.countP (Event.delivers m s) =
        tr.countP (Event.isStart m) * (mem.macros m).signals.count (some s)) ∧
      (c.shared.macros m).queued = 0 := by
  obtain ⟨hplayed, hone⟩ :=
    oneStart_of_run hmem.limit hmem.active (hmem.macros m) hqueued hv hsticky hsignals h
  exact hone.countP_isSpawn hended ▸ hplayed.of_ended hended

end Runs

/-- Macros 0 and 1 are started and played in turns. -/
theorem played_once_two : ∃ tr c,
    program.Run (fun c l => startsOnce 0 c l) (initial (.ofMacro
      { interruptor := .continue, context := some 0, signals := [some 7, some 7] })) tr c ∧
    tr.countP (Event.isStart 0) = 1 ∧ tr.countP (Event.isPass 0) = 1 ∧
    tr.countP (Event.delivers 0 7) = 2 := by
  obtain ⟨tr, c, h, hp⟩ := Machine.Run.exists_of_exec (startsOnce 0)
    (initial (.ofMacro
      { interruptor := .continue, context := some 0, signals := [some 7, some 7] }))
    (.call (.call 0 (.start .lock)) :: .call (.call 1 (.start .lock)) ::
      (List.replicate 12 [.step 0 true, .step 1 true]).flatten ++
        (List.replicate 30 [.step 2 true, .step 3 true]).flatten)
    (M := program) (P := fun tr c => (∀ t ∈ c.pool, t.ended = true) ∧
      tr.countP (Event.isStart 0) = 1) (by decide +kernel)
  obtain ⟨hended, hstart⟩ := of_decide_eq_true hp
  have hmac : Macro.Settled 0x10
      { interruptor := .continue, context := some 0, signals := [some 7, some 7] } :=
    ⟨by decide, rfl, rfl, by decide, by decide, by decide, by decide⟩
  obtain ⟨hpass, hdeliver, -⟩ := played_once ⟨by decide, rfl, fun _ => hmac⟩ rfl rfl rfl
    (by decide) h fun t ht _ => hended t ht
  refine ⟨tr, c, h, hstart, hpass.trans hstart, (hdeliver 7).trans ?_⟩
  rw [hstart]
  rfl

end Libmacro
