import Libmacro.Blocks
import Mathlib.Data.Set.Basic

/-! # Registrations of an idle macro

The configuration calls of a macro that is not running (`ConfigCall`) and what should be
registered after them (`registrations`). `_removeDispatch` undoes three of the four shapes of
`_addDispatch`: the triggers a macro without activators puts on the generic dispatcher stay
there. `ConfigCall.inStep_iff_neverStrands` says that the registrations are exact after every call
iff no call strands such a trigger. -/

namespace Libmacro

/-- A configuration call of the client. `setEnabled(b)` is `setInterruptor` with `CONTINUE` or
`DISABLE`. -/
inductive ConfigCall where
  /-- `setActivators`. -/
  | setActivators (array : List SignalId)
  /-- `setTriggers`. -/
  | setTriggers (array : List TriggerId)
  /-- `setInterruptor`. -/
  | setInterruptor (val : Interrupt)
  /-- `applyDispatch`. -/
  | applyDispatch
  /-- `removeDispatch`. -/
  | removeDispatch
  deriving DecidableEq, Repr

namespace Memory

variable (mem : Memory) (m : MacroId) (g : DispatcherId) (T : Set TriggerId)

/-- **The registrations a macro should have**, `g` being the generic dispatcher of its context:
none when disabled; the macro on `g` without activators and triggers; the triggers on `g`
without activators; the macro on the activators' dispatchers without triggers; else every
trigger on every activator's dispatcher. -/
def registrations : Set (DispatcherId × Receiver) :=
  if (mem.macros m).enabled then
    match (mem.macros m).activators, (mem.macros m).triggers with
    | [], [] => {(g, .ofMacro m)}
    | [], triggers => {p | ∃ t ∈ triggers, p = (g, .trigger t)}
    | activators, [] =>
      {p | ∃ a ∈ activators, ∃ d, mem.dispatcherPtr a = some d ∧ p = (d, .ofMacro m)}
    | activators, triggers => {p | ∃ a ∈ activators, ∃ t ∈ triggers, ∃ d,
        mem.dispatcherPtr a = some d ∧ p = (d, .trigger t)}
  else ∅

/-- The receivers that belong to the macro: itself and the triggers it was ever given. -/
def Owns (r : Receiver) : Prop := r = .ofMacro m ∨ ∃ t ∈ T, r = .trigger t

/-- The (dispatcher, receiver) pairs of the macro that are registered. -/
def registered : Set (DispatcherId × Receiver) :=
  {p | mem.dispatchers p.1 |>.Has p.2} ∩ {p | Owns m T p.2}

variable {mem m g T}

/-- The pairs `_addDispatch` wants are the registrations of an enabled macro. -/
theorem mem_registrations_iff {d : DispatcherId} {r : Receiver} :
    (d, r) ∈ mem.registrations m g ↔
      (mem.macros m).enabled = true ∧ mem.Wanted m (some g) d r := by
  unfold registrations Wanted IsTrigger DispatcherOf
  cases hen : (mem.macros m).enabled with
  | false => simp
  | true =>
    -- the four cases of `_addDispatch()`: with or without activators, with or without triggers
    cases ha : (mem.macros m).activators with
    | nil =>
      cases ht : (mem.macros m).triggers with
      | nil => simp [eq_comm (a := g)]
      | cons t ts =>
        simp only [if_true, Set.mem_ofPred_eq, Prod.mk.injEq, Option.some.injEq, true_and,
          reduceCtorEq, if_false]
        constructor
        · rintro ⟨u, hu, rfl, rfl⟩; exact ⟨rfl, u, hu, rfl⟩
        · rintro ⟨rfl, u, hu, rfl⟩; exact ⟨u, hu, rfl, rfl⟩
    | cons a as =>
      cases ht : (mem.macros m).triggers with
      | nil =>
        simp only [if_true, Set.mem_ofPred_eq, Prod.mk.injEq, true_and, reduceCtorEq, if_false]
        constructor
        · rintro ⟨b, hb, e, he, rfl, rfl⟩; exact ⟨⟨b, hb, he⟩, rfl⟩
        · rintro ⟨⟨b, hb, he⟩, rfl⟩; exact ⟨b, hb, d, he, rfl, rfl⟩
      | cons t ts =>
        simp only [if_true, Set.mem_ofPred_eq, Prod.mk.injEq, true_and, reduceCtorEq, if_false]
        constructor
        · rintro ⟨b, hb, u, hu, e, he, rfl, rfl⟩; exact ⟨⟨b, hb, he⟩, u, hu, rfl⟩
        · rintro ⟨⟨b, hb, he⟩, u, hu, rfl⟩; exact ⟨b, hb, u, hu, d, he, rfl, rfl⟩

/-- A registered pair whose receiver belongs to the macro. -/
theorem mem_registered_iff {d : DispatcherId} {r : Receiver} :
    (d, r) ∈ mem.registered m T ↔ Registry.Has mem.dispatchers d r ∧ Owns m T r := Iff.rfl

/-- The macro is idle, applies its dispatch, and `g` is the generic dispatcher of its context;
its triggers are among `T`. -/
structure Ready (mem : Memory) (m : MacroId) (g : DispatcherId) (T : Set TriggerId) : Prop where
  /-- The context is not null and has a generic dispatcher. -/
  context : mem.contextDispatcher m = some (some g)
  /-- `applyDispatchEnabled()`. -/
  flag : (mem.macros m).applyDispatchFlag = true
  /-- The macro is not running. -/
  idle : (mem.macros m).threadCount = 0
  /-- The current triggers were given to the macro. -/
  triggers : ∀ t ∈ (mem.macros m).triggers, t ∈ T

/-- What is wanted belongs to the macro. -/
theorem Ready.owns_of_wanted (h : Ready mem m g T) {d : DispatcherId} {r : Receiver}
    (hw : mem.Wanted m (some g) d r) : Owns m T r := by
  rcases owner_of_wanted hw with hr | ⟨t, ht, hr⟩
  · exact .inl hr
  · exact .inr ⟨t, h.triggers t ht, hr⟩

/-- Changing the dispatchers changes neither the configuration nor what should be registered. -/
theorem Ready.withDispatchers (h : Ready mem m g T) (reg : Registry) :
    Ready { mem with dispatchers := reg } m g T :=
  ⟨h.context, h.flag, h.idle, h.triggers⟩

/-- **What stays behind.** When nothing but wanted pairs is registered, the pairs that
`_removeDispatch` leaves are the triggers a macro without activators has on `g`. -/
theorem Ready.left_behind_iff (h : Ready mem m g T)
    (hsub : mem.registered m T ⊆ mem.registrations m g) {d : DispatcherId} {r : Receiver} :
    (d, r) ∈ mem.registered m T ∧ ¬ mem.Released m (some g) d r ↔
      (mem.macros m).activators = [] ∧ d = g ∧
        ∃ t ∈ (mem.macros m).triggers, r = .trigger t ∧ (mem.dispatchers g).Has (.trigger t) := by
  constructor
  · rintro ⟨hreg, hnot⟩
    have hwanted := (mem_registrations_iff.mp (hsub hreg)).2
    obtain ⟨ha, hg, t, ht, rfl⟩ := wanted_not_released_iff.mp ⟨hwanted, hnot⟩
    obtain rfl := Option.some.inj hg
    exact ⟨ha, rfl, t, ht, rfl, hreg.1⟩
  · rintro ⟨ha, rfl, t, ht, rfl, hhas⟩
    exact ⟨⟨hhas, .inr ⟨t, h.triggers t ht, rfl⟩⟩, by simp [Released, ha]⟩

/-- The pairs of the macro after `_removeDispatch`. -/
theorem Ready.removeDispatch (h : Ready mem m g T) : ∃ reg,
    mem.removeDispatch m mem.dispatchers = some reg ∧ ∀ d r,
      (d, r) ∈ registered { mem with dispatchers := reg } m T ↔
        (d, r) ∈ mem.registered m T ∧ ¬ mem.Released m (some g) d r := by
  obtain ⟨reg, hreg⟩ := removeDispatch_isSome mem.dispatchers h.context
  refine ⟨reg, hreg, fun d r => ?_⟩
  rw [mem_registered_iff, mem_registered_iff, has_removeDispatch h.context hreg]
  tauto

/-- **`_applyDispatch` is exact** iff each pair it leaves behind is wanted. -/
theorem Ready.applyDispatch (h : Ready mem m g T) : ∃ reg,
    mem.applyDispatch m mem.dispatchers = some reg ∧
      (registered { mem with dispatchers := reg } m T = mem.registrations m g ↔
        ∀ d r, (d, r) ∈ mem.registered m T → ¬ mem.Released m (some g) d r →
          (d, r) ∈ mem.registrations m g) := by
  obtain ⟨reg, hreg, hhas⟩ := has_applyDispatch mem.dispatchers h.context h.flag
  refine ⟨reg, hreg, ?_⟩
  -- what `_removeDispatch` leaves of the macro's own, and what `_addDispatch` adds
  have hmem : ∀ d r, (d, r) ∈ registered { mem with dispatchers := reg } m T ↔
      ((d, r) ∈ mem.registered m T ∧ ¬ mem.Released m (some g) d r) ∨
        (d, r) ∈ mem.registrations m g := by
    intro d r
    have howns : (d, r) ∈ mem.registrations m g → Owns m T r :=
      fun hp => h.owns_of_wanted (mem_registrations_iff.mp hp).2
    rw [mem_registered_iff, hhas, ← mem_registrations_iff, mem_registered_iff]
    tauto
  constructor
  · intro heq d r hp hnot
    rw [← heq]
    exact (hmem d r).mpr (.inl ⟨hp, hnot⟩)
  · intro hleft
    ext ⟨d, r⟩
    rw [hmem]
    constructor
    · rintro (⟨hp, hnot⟩ | hp)
      · exact hleft d r hp hnot
      · exact hp
    · exact .inr

end Memory

/-! ## One call -/

namespace ConfigCall

variable (mem mem' : Memory) (m : MacroId) (g : DispatcherId) (T : Set TriggerId)

/-- The call run on its own; `none` when it reads a null context. -/
def run : ConfigCall → Option Memory
  | setActivators array => mem.setActivators m array
  | setTriggers array => mem.setTriggers m array
  | setInterruptor val => (mem.setInterruptor m val).map Prod.fst
  | applyDispatch => Block.applyDispatch.apply m mem
  | removeDispatch => Block.removeDispatch.apply m mem

/-- The triggers the call gives to the macro are among `T`. -/
def Gives : ConfigCall → Prop
  | setTriggers array => ∀ t ∈ array, t ∈ T
  | _ => True

/-- **Exactness after the call**, which leads from `mem` to `mem'`: nothing of the macro is
registered after `removeDispatch`, and exactly `registrations` after every other call, a
`setInterruptor` that does not cross `DISABLE` excepted. -/
def Exact : ConfigCall → Prop
  | removeDispatch => mem'.registered m T = ∅
  | setInterruptor val =>
    Xor ((mem.macros m).interruptor = .disable) (val = .disable) →
      mem'.registered m T = mem'.registrations m g
  | _ => mem'.registered m T = mem'.registrations m g

/-- Trigger `t`, on `g` for lack of activators, should still be there after the call. -/
def Keeps (t : TriggerId) : ConfigCall → Prop
  | setActivators array => array = [] ∨ mem.DispatcherOf array g
  | setTriggers array => t ∈ array
  | setInterruptor val => val ≠ .disable
  | applyDispatch => True
  | removeDispatch => False

/-- **The call strands a trigger**: without activators a current trigger is registered with `g`
and should no longer be after the call. -/
def Strands (call : ConfigCall) : Prop :=
  (mem.macros m).activators = [] ∧
    ∃ t ∈ (mem.macros m).triggers, (mem.dispatchers g).Has (.trigger t) ∧ ¬ call.Keeps mem g t

end ConfigCall

namespace Memory

open ConfigCall

variable {mem mem₁ mem' : Memory} {m : MacroId} {g : DispatcherId} {T : Set TriggerId}

/-- A closing `_applyDispatch` in `mem₁`, when just the pairs left behind in `mem` are still to
be judged: it is exact iff no trigger is stranded. -/
theorem Ready.exact_applyDispatch (h : Ready mem m g T) (h₁ : Ready mem₁ m g T)
    (hsub : mem.registered m T ⊆ mem.registrations m g) {call : ConfigCall}
    (hleft : ∀ d r, (d, r) ∈ mem₁.registered m T ∧ ¬ mem₁.Released m (some g) d r ↔
      ((d, r) ∈ mem.registered m T ∧ ¬ mem.Released m (some g) d r) ∧
        ¬ mem₁.Released m (some g) d r)
    (hkeeps : (mem.macros m).activators = [] → (mem.macros m).enabled = true →
      ∀ t ∈ (mem.macros m).triggers,
        (¬ mem₁.Released m (some g) g (.trigger t) → (g, .trigger t) ∈ mem₁.registrations m g) ↔
          call.Keeps mem g t) :
    ∃ reg, mem₁.applyDispatch m mem₁.dispatchers = some reg ∧
      (registered { mem₁ with dispatchers := reg } m T = mem₁.registrations m g ↔
        ¬ call.Strands mem m g) := by
  obtain ⟨reg, hreg, hexact⟩ := h₁.applyDispatch
  refine ⟨reg, hreg, hexact.trans ?_⟩
  -- only an enabled macro can have a trigger on `g`
  have henabled : ∀ {t}, t ∈ (mem.macros m).triggers →
      (mem.dispatchers g).Has (.trigger t) → (mem.macros m).enabled = true := by
    intro t ht hhas
    have hreg : (g, Receiver.trigger t) ∈ mem.registered m T :=
      ⟨hhas, .inr ⟨t, h.triggers t ht, rfl⟩⟩
    exact (mem_registrations_iff.mp (hsub hreg)).1
  constructor
  · -- a stranded trigger is left behind and not wanted any more
    rintro hall ⟨ha, t, ht, hhas, hnot⟩
    refine hnot ((hkeeps ha (henabled ht hhas) t ht).mp fun hrel => ?_)
    have hbehind := (h.left_behind_iff hsub).mpr ⟨ha, rfl, t, ht, rfl, hhas⟩
    exact hall g _ ((hleft _ _).mpr ⟨hbehind, hrel⟩).1 hrel
  · -- what is left behind is a trigger on `g`, and it is not stranded
    intro hstrands d r hmem hrel
    obtain ⟨ha, rfl, t, ht, rfl, hhas⟩ :=
      (h.left_behind_iff hsub).mp ((hleft d r).mp ⟨hmem, hrel⟩).1
    by_contra hwanted
    refine hstrands ⟨ha, t, ht, hhas, fun hkeep => hwanted ?_⟩
    exact (hkeeps ha (henabled ht hhas) t ht).mpr hkeep hrel

/-- `setActivators`: the old shape is released with the old activators, the new one applied. -/
theorem Ready.setActivators (h : Ready mem m g T)
    (hsub : mem.registered m T ⊆ mem.registrations m g) (array : List SignalId) : ∃ mem',
    mem.setActivators m array = some mem' ∧ Ready mem' m g T ∧
      (mem'.registered m T = mem'.registrations m g ↔
        ¬ (ConfigCall.setActivators array).Strands mem m g) := by
  obtain ⟨reg, hreg, hhas⟩ := h.removeDispatch
  let mem₁ := { mem with dispatchers := reg }.modify m fun mac =>
    { mac with activators := array }
  have hmac : mem₁.macros m = { mem.macros m with activators := array } := by simp [mem₁]
  have h₁ : Ready mem₁ m g T :=
    ⟨by simpa [contextDispatcher, mem₁] using h.context, by simpa [hmac] using h.flag,
      by simpa [hmac] using h.idle, by simpa [hmac] using h.triggers⟩
  -- the flag and the interruptor are kept, so only the activators decide what is released
  have hkeeps : ∀ t ∈ (mem.macros m).triggers, (mem.macros m).enabled = true →
      ((¬ mem₁.Released m (some g) g (.trigger t) → (g, .trigger t) ∈ mem₁.registrations m g) ↔
        (ConfigCall.setActivators array).Keeps mem g t) := by
    intro t ht hen
    have htrig : mem₁.IsTrigger m (.trigger t) := ⟨t, by simpa [hmac] using ht, rfl⟩
    have hne : (mem.macros m).triggers ≠ [] := List.ne_nil_of_mem ht
    have hdisp : mem₁.DispatcherOf array g ↔ mem.DispatcherOf array g := Iff.rfl
    have hen₁ := Macro.enabled_iff.mp hen
    simp only [mem_registrations_iff, Released, Wanted, hmac, hne, if_false, htrig, hdisp,
      ConfigCall.Keeps]
    by_cases ha : array = []
    · simp [ha, hen₁]
    · simp [ha, hen₁]
  obtain ⟨reg', hreg', hexact⟩ := h.exact_applyDispatch h₁ hsub
    (fun d r => by rw [← hhas]; rfl) fun _ hen t ht => hkeeps t ht hen
  refine ⟨{ mem₁ with dispatchers := reg' }, ?_, h₁.withDispatchers reg', hexact⟩
  rw [Memory.setActivators, hreg]
  exact congrArg (Option.bind · fun reg => some { mem₁ with dispatchers := reg }) hreg'

/-- `setTriggers`: the old triggers are released with the old configuration. -/
theorem Ready.setTriggers (h : Ready mem m g T)
    (hsub : mem.registered m T ⊆ mem.registrations m g) {array : List TriggerId}
    (hT : ∀ t ∈ array, t ∈ T) : ∃ mem',
    mem.setTriggers m array = some mem' ∧ Ready mem' m g T ∧
      (mem'.registered m T = mem'.registrations m g ↔
        ¬ (ConfigCall.setTriggers array).Strands mem m g) := by
  obtain ⟨reg, hreg, hhas⟩ := h.removeDispatch
  let mem₁ := { mem with
    dispatchers := reg
    actorPtr := array.foldl (fun actorPtr trig => Function.update actorPtr trig (some m))
      mem.actorPtr }.modify m fun mac => { mac with triggers := array }
  have hmac : mem₁.macros m = { mem.macros m with triggers := array } := by simp [mem₁]
  have h₁ : Ready mem₁ m g T :=
    ⟨by simpa [contextDispatcher, mem₁] using h.context, by simpa [hmac] using h.flag,
      by simpa [hmac] using h.idle, by simpa [hmac] using hT⟩
  -- without activators the triggers are on `g`, and the new ones take their place
  have hkeeps : (mem.macros m).activators = [] → (mem.macros m).enabled = true → ∀ t,
      ((¬ mem₁.Released m (some g) g (.trigger t) → (g, .trigger t) ∈ mem₁.registrations m g) ↔
        (ConfigCall.setTriggers array).Keeps mem g t) := by
    intro ha hen t
    have hen₁ := Macro.enabled_iff.mp hen
    simp only [mem_registrations_iff, Released, Wanted, IsTrigger, hmac, ha, ConfigCall.Keeps]
    by_cases ht : array = []
    · simp [ht, hen₁]
    · simp [ht, hen₁]
  obtain ⟨reg', hreg', hexact⟩ := h.exact_applyDispatch h₁ hsub
    (fun d r => by rw [← hhas]; rfl) fun ha hen t _ => hkeeps ha hen t
  refine ⟨{ mem₁ with dispatchers := reg' }, ?_, h₁.withDispatchers reg', hexact⟩
  rw [Memory.setTriggers, hreg]
  exact congrArg (Option.bind · fun reg => some { mem₁ with dispatchers := reg }) hreg'

/-- `applyDispatch` strands nothing: what it leaves behind is still wanted. -/
theorem Ready.applyDispatch_call (h : Ready mem m g T)
    (hsub : mem.registered m T ⊆ mem.registrations m g) : ∃ mem',
    Block.applyDispatch.apply m mem = some mem' ∧ Ready mem' m g T ∧
      mem'.registered m T = mem'.registrations m g := by
  obtain ⟨reg, hreg, hexact⟩ := h.applyDispatch
  exact ⟨_, by simp [Block.apply, hreg], h.withDispatchers reg, hexact.mpr fun _ _ hp _ => hsub hp⟩

/-- `removeDispatch` clears the macro's registrations iff no trigger is stranded. -/
theorem Ready.removeDispatch_call (h : Ready mem m g T)
    (hsub : mem.registered m T ⊆ mem.registrations m g) : ∃ mem',
    Block.removeDispatch.apply m mem = some mem' ∧ Ready mem' m g T ∧
      (mem'.registered m T = ∅ ↔ ¬ ConfigCall.removeDispatch.Strands mem m g) := by
  obtain ⟨reg, hreg, hhas⟩ := h.removeDispatch
  refine ⟨_, by simp [Block.apply, hreg], h.withDispatchers reg, ?_⟩
  rw [Set.eq_empty_iff_forall_notMem]
  constructor
  · rintro hempty ⟨ha, t, ht, hhas_t, -⟩
    have hbehind := (h.left_behind_iff hsub).mpr ⟨ha, rfl, t, ht, rfl, hhas_t⟩
    exact hempty _ ((hhas g (.trigger t)).mpr hbehind)
  · rintro hstrands ⟨d, r⟩ hp
    obtain ⟨ha, rfl, t, ht, rfl, hhas_t⟩ := (h.left_behind_iff hsub).mp ((hhas d r).mp hp)
    exact hstrands ⟨ha, t, ht, hhas_t, fun hkeep => hkeep⟩

/-- Whether the stored interruptor leaves the macro enabled. -/
theorem enabled_storeInterruptor (val : Interrupt) (mac : Macro) :
    (mac.storeInterruptor val).1.enabled = true ↔ val ≠ .disable := by
  rw [Macro.enabled_iff, Macro.storeInterruptor_interruptor, Macro.interruptorAfter]
  split
  · simp_all
  · rfl

/-- The guarded store of `setInterruptor` keeps the macro ready. -/
theorem Ready.storeInterruptor (h : Ready mem m g T) (val : Interrupt) :
    Ready (mem.modify m fun _ => ((mem.macros m).storeInterruptor val).1) m g T := by
  obtain ⟨q, n, hmac⟩ := Macro.storeInterruptor_frame val (mem.macros m)
  exact ⟨by simpa [contextDispatcher, hmac] using h.context, by simpa [hmac] using h.flag,
    by simpa [hmac] using h.idle, by simpa [hmac] using h.triggers⟩

/-- The stored interruptor changes what is wanted only by enabling or disabling. -/
theorem mem_registrations_storeInterruptor {val : Interrupt} {d : DispatcherId} {r : Receiver} :
    (d, r) ∈ registrations
        (mem.modify m fun _ => ((mem.macros m).storeInterruptor val).1) m g ↔
      val ≠ .disable ∧ mem.Wanted m (some g) d r := by
  obtain ⟨q, n, hmac⟩ := Macro.storeInterruptor_frame val (mem.macros m)
  rw [mem_registrations_iff, modify_macros_self, enabled_storeInterruptor]
  simp [Wanted, IsTrigger, DispatcherOf, hmac]

/-- **`setInterruptor`** is exact when it crosses `DISABLE` iff it strands no trigger; when it
does not cross, it changes neither the registrations nor what they should be. -/
theorem Ready.setInterruptor (h : Ready mem m g T)
    (hsub : mem.registered m T ⊆ mem.registrations m g) (val : Interrupt) : ∃ mem' flag,
    mem.setInterruptor m val = some (mem', flag) ∧ Ready mem' m g T ∧
      (Xor ((mem.macros m).interruptor = .disable) (val = .disable) →
        (mem'.registered m T = mem'.registrations m g ↔
          ¬ (ConfigCall.setInterruptor val).Strands mem m g)) ∧
      (¬ Xor ((mem.macros m).interruptor = .disable) (val = .disable) →
        mem'.registered m T = mem.registered m T ∧
          mem'.registrations m g = mem.registrations m g) := by
  by_cases heq : val = (mem.macros m).interruptor
  · -- the value is the current one: nothing is done
    refine ⟨mem, false, by simp [Memory.setInterruptor, heq], h, fun hx => ?_,
      fun _ => ⟨rfl, rfl⟩⟩
    rw [← heq, xor_self] at hx
    exact hx.elim
  let mem₁ := mem.modify m fun _ => ((mem.macros m).storeInterruptor val).1
  have h₁ : Ready mem₁ m g T := h.storeInterruptor val
  have hregs : ∀ {d r}, (d, r) ∈ mem₁.registrations m g ↔
      val ≠ .disable ∧ mem.Wanted m (some g) d r := mem_registrations_storeInterruptor
  obtain ⟨q, n, hmac⟩ := Macro.storeInterruptor_frame val (mem.macros m)
  by_cases hcross : (mem.macros m).interruptor = .disable ∨ val = .disable
  · -- the call crosses `DISABLE`, and applies the dispatch
    have hrel : ∀ d r, mem₁.Released m (some g) d r ↔ mem.Released m (some g) d r := by
      intro d r
      simp [Released, IsTrigger, DispatcherOf, mem₁, hmac]
    have hkeeps : (mem.macros m).activators = [] → ∀ t ∈ (mem.macros m).triggers,
        ((¬ mem₁.Released m (some g) g (.trigger t) →
            (g, .trigger t) ∈ mem₁.registrations m g) ↔
          (ConfigCall.setInterruptor val).Keeps mem g t) := by
      intro ha t ht
      have hbehind := (wanted_not_released_iff (g := some g) (d := g)).mpr ⟨ha, rfl, t, ht, rfl⟩
      rw [hrel, hregs, ConfigCall.Keeps]
      tauto
    obtain ⟨reg, hreg, hexact⟩ := h.exact_applyDispatch h₁ hsub
      (fun d r => by rw [hrel, and_assoc, and_self]; rfl) fun ha _ t ht => hkeeps ha t ht
    refine ⟨{ mem₁ with dispatchers := reg }, ((mem.macros m).storeInterruptor val).2, ?_,
      h₁.withDispatchers reg, fun _ => hexact, fun hx => ?_⟩
    · simp only [Memory.setInterruptor, if_pos hcross, if_pos (show val ≠ _ from heq)]
      rw [Block.apply, hreg]
      rfl
    · rw [xor_iff_not_iff, not_not] at hx
      rcases hcross with hc | hc
      · exact absurd ((hx.mp hc).trans hc.symm) heq
      · exact absurd (hc.trans (hx.mpr hc).symm) heq
  · -- enabled before and after: only the interruptor is written
    refine ⟨mem₁, ((mem.macros m).storeInterruptor val).2, by simp only [Memory.setInterruptor,
      if_neg hcross, if_pos (show val ≠ _ from heq), mem₁], h₁, fun hx => ?_,
      fun _ => ⟨rfl, ?_⟩⟩
    · -- the call does not cross
      exact absurd (hx.imp And.left And.left) hcross
    · ext ⟨d, r⟩
      rw [hregs, mem_registrations_iff, Macro.enabled_iff]
      tauto

end Memory

namespace ConfigCall

open Memory

variable {mem : Memory} {m : MacroId} {g : DispatcherId} {T : Set TriggerId}

/-- **One call**: it returns, keeps the macro ready, and is exact iff it strands no trigger;
after an exact call nothing but wanted pairs is registered. -/
theorem run_spec (h : Ready mem m g T) (hsub : mem.registered m T ⊆ mem.registrations m g)
    {call : ConfigCall} (hT : call.Gives T) : ∃ mem', call.run mem m = some mem' ∧
      Ready mem' m g T ∧ (call.Exact mem mem' m g T ↔ ¬ call.Strands mem m g) ∧
      (call.Exact mem mem' m g T → mem'.registered m T ⊆ mem'.registrations m g) := by
  cases call with
  | setActivators array =>
    obtain ⟨mem', hrun, hready, hexact⟩ := h.setActivators hsub array
    exact ⟨mem', hrun, hready, hexact, fun heq => heq.le⟩
  | setTriggers array =>
    obtain ⟨mem', hrun, hready, hexact⟩ := h.setTriggers hsub hT
    exact ⟨mem', hrun, hready, hexact, fun heq => heq.le⟩
  | applyDispatch =>
    obtain ⟨mem', hrun, hready, hexact⟩ := h.applyDispatch_call hsub
    refine ⟨mem', hrun, hready, iff_of_true hexact ?_, fun heq => heq.le⟩
    rintro ⟨-, t, -, -, hnot⟩
    exact hnot trivial
  | removeDispatch =>
    obtain ⟨mem', hrun, hready, hexact⟩ := h.removeDispatch_call hsub
    refine ⟨mem', hrun, hready, hexact, fun hempty => ?_⟩
    rw [show mem'.registered m T = ∅ from hempty]
    exact Set.empty_subset _
  | setInterruptor val =>
    obtain ⟨mem', flag, hrun, hready, hexact, hkeep⟩ := h.setInterruptor hsub val
    refine ⟨mem', by simp [run, hrun], hready, ?_⟩
    by_cases hx : Xor ((mem.macros m).interruptor = .disable) (val = .disable)
    · exact ⟨⟨fun he => (hexact hx).mp (he hx), fun hs _ => (hexact hx).mpr hs⟩,
        fun he => (he hx).le⟩
    · refine ⟨iff_of_true (fun hx' => absurd hx' hx) ?_, fun _ => ?_⟩
      · -- An enabled macro stays enabled, and a disabled one has nothing on `g` to strand.
        rintro ⟨ha, t, ht, hhas, hnot⟩
        have hmem : (g, Receiver.trigger t) ∈ mem.registered m T :=
          ⟨hhas, .inr ⟨t, h.triggers t ht, rfl⟩⟩
        have hen := Macro.enabled_iff.mp (mem_registrations_iff.mp (hsub hmem)).1
        rw [xor_iff_not_iff, not_not] at hx
        exact hnot fun hval => hen (hx.mpr hval)
      · obtain ⟨hreg, hregs⟩ := hkeep hx
        rw [hreg, hregs]
        exact hsub

/-! ## All sequences of calls -/

variable (m g T)

/-- Every call of the sequence returns and is exact. -/
def InStep : List ConfigCall → Memory → Prop
  | [], _ => True
  | call :: calls, mem =>
    ∃ mem', call.run mem m = some mem' ∧ call.Exact mem mem' m g T ∧ InStep calls mem'

/-- No call of the sequence strands a trigger. -/
def NeverStrands : List ConfigCall → Memory → Prop
  | [], _ => True
  | call :: calls, mem =>
    ¬ call.Strands mem m g ∧ ∀ mem', call.run mem m = some mem' → NeverStrands calls mem'

variable {m g T}

/-- **Registrations are exact after every call of a sequence iff no call of it strands a
trigger** on the generic dispatcher, from any state with nothing but wanted pairs registered (a
new macro, say). -/
theorem inStep_iff_neverStrands {calls : List ConfigCall} (h : Ready mem m g T)
    (hsub : mem.registered m T ⊆ mem.registrations m g) (hT : ∀ call ∈ calls, call.Gives T) :
    InStep m g T calls mem ↔ NeverStrands m g calls mem := by
  induction calls generalizing mem with
  | nil => exact Iff.rfl
  | cons call calls ih =>
    obtain ⟨mem', hrun, hready, hexact, hsub'⟩ := run_spec h hsub (hT call List.mem_cons_self)
    have hrest : ∀ call ∈ calls, call.Gives T := fun c hc => hT c (List.mem_cons_of_mem _ hc)
    constructor
    · rintro ⟨mem₁, hrun₁, he, hstep⟩
      obtain rfl := Option.some.inj (hrun.symm.trans hrun₁)
      refine ⟨hexact.mp he, fun mem₂ hrun₂ => ?_⟩
      obtain rfl := Option.some.inj (hrun.symm.trans hrun₂)
      exact (ih hready (hsub' he) hrest).mp hstep
    · rintro ⟨hs, hstep⟩
      have he := hexact.mpr hs
      exact ⟨mem', hrun, he, (ih hready (hsub' he) hrest).mpr (hstep mem' hrun)⟩

/-- New macros, in a context, with default fields and nothing registered. -/
def fresh : Memory := .ofMacro { context := some 0 }

/-- Before the first call no dispatcher has a receiver. -/
theorem not_has_fresh {d : DispatcherId} {r : Receiver} : ¬ Registry.Has fresh.dispatchers d r := by
  simp [fresh, Memory.ofMacro, Registry.Has, Dispatcher.Has]

/-- Neither a new macro nor any of its triggers is registered yet. -/
theorem registered_fresh (T : Set TriggerId) : fresh.registered 0 T = ∅ := by
  ext ⟨d, r⟩
  exact iff_of_false (fun h => not_has_fresh (mem_registered_iff.mp h).1) (Set.notMem_empty _)

/-- A new macro is ready: it is idle, applies its dispatch and has a context. -/
theorem ready_fresh (T : Set TriggerId) : Ready fresh 0 0 T :=
  ⟨rfl, rfl, rfl, by simp [fresh, Memory.ofMacro]⟩

/-- With activator 7 from the beginning, trigger 5 is never on the generic dispatcher: enabling and
disabling leave no trigger behind, and every registration is exact. -/
theorem inStep_iff_neverStrands_fresh :
    NeverStrands 0 0 [.setActivators [7], .setTriggers [5], .setInterruptor .continue,
        .setInterruptor .disable] fresh ∧
      InStep 0 0 {5} [.setActivators [7], .setTriggers [5], .setInterruptor .continue,
        .setInterruptor .disable] fresh := by
  have hnever : NeverStrands 0 0 [.setActivators [7], .setTriggers [5], .setInterruptor .continue,
      .setInterruptor .disable] fresh := by
    refine ⟨?_, fun mem₁ h₁ => ⟨?_, fun mem₂ h₂ => ⟨?_, fun mem₃ h₃ => ⟨?_, fun _ _ => trivial⟩⟩⟩⟩
    · -- there is no trigger yet
      rintro ⟨-, t, ht, -⟩
      exact absurd ht List.not_mem_nil
    -- from here on there is an activator
    · obtain rfl := Option.some.inj h₁
      exact fun hstrands => absurd hstrands.1 (by decide)
    · obtain rfl := Option.some.inj h₁
      obtain rfl := Option.some.inj h₂
      exact fun hstrands => absurd hstrands.1 (by decide)
    · obtain rfl := Option.some.inj h₁
      obtain rfl := Option.some.inj h₂
      obtain rfl := Option.some.inj h₃
      exact fun hstrands => absurd hstrands.1 (by decide)
  exact ⟨hnever, (inStep_iff_neverStrands (ready_fresh {5}) (by simp [registered_fresh])
    (by simp [ConfigCall.Gives])).mpr hnever⟩

/-- **A trigger stays behind**: a macro without activators is enabled, given trigger 5 and
disabled; the trigger is still registered with the generic dispatcher. -/
theorem not_inStep_disable : Ready fresh 0 0 {5} ∧ fresh.registered 0 {5} = ∅ ∧
    ¬ InStep 0 0 {5} [.setInterruptor .continue, .setTriggers [5], .setInterruptor .disable]
      fresh := by
  refine ⟨ready_fresh {5}, registered_fresh {5}, ?_⟩
  rintro ⟨mem₁, h₁, -, mem₂, h₂, -, mem₃, h₃, hexact, -⟩
  have hstate : (((setInterruptor .continue).run fresh 0).bind fun mem =>
      ((setTriggers [5]).run mem 0).bind fun mem₂ =>
        ((setInterruptor .disable).run mem₂ 0).map fun mem₃ =>
          ((mem₂.macros 0).enabled, (mem₃.macros 0).enabled,
            decide (Registry.Has mem₃.dispatchers 0 (.trigger 5)))) =
      some (true, false, true) := by decide
  simp only [h₁, h₂, h₃, Option.bind_some, Option.map_some, Option.some.injEq, Prod.mk.injEq,
    decide_eq_true_eq, Macro.enabled_iff] at hstate
  obtain ⟨hen, hdis, hhas⟩ := hstate
  have hmem : (0, Receiver.trigger 5) ∈ mem₃.registered 0 {5} := ⟨hhas, .inr ⟨5, rfl, rfl⟩⟩
  rw [hexact (.inr ⟨rfl, hen⟩), mem_registrations_iff, hdis] at hmem
  exact absurd hmem.1 (by decide)

end ConfigCall

end Libmacro
