import Interleave.Proofs.Stacks

/-!
# Classes are initialized once

A class without an initializer is initialized as soon as a thread needs it. A class with one is
being initialized from the moment that a thread takes the monitor of its class object for the
initializer, until the thread leaves the initializer again. In between the thread holds the monitor,
so that no other thread can enter the initializer, and the thread itself does not, since it may use
the class.

`Kernel.Guarded` is what makes this work. It is kept by each move of a thread, and whatever moves do
to a class, its status only goes forward.
-/

namespace Interleave

open Relation

/-! ## Statuses -/

namespace ClassStatus

/-- The initialization of a class stays where it is, begins or ends. -/
inductive Precedes : ClassStatus → ClassStatus → Prop where
  | stays (s : ClassStatus) : Precedes s s
  | begins (t : ThreadId) : Precedes .uninitialized (.initializing t)
  | ends (s : ClassStatus) : Precedes s .initialized

instance : IsPreorder ClassStatus Precedes where
  refl := .stays
  trans _ _ _ h h' := by
    cases h with
    | stays => exact h'
    | begins t =>
      cases h' with
      | stays => exact .begins t
      | ends => exact .ends _
    | ends =>
      cases h' with
      | stays => exact .ends _
      | ends => exact .ends _

end ClassStatus

namespace Kernel

variable {p : Program} {k k' k₁ k₂ k₃ : Kernel} {t u : ThreadId} {c : ClassId} {s : ClassStatus}

/-- A class has a status exactly if it has a class object. -/
theorem exists_classStatus_iff :
    (∃ s, k.classStatus c = .ok s) ↔ ∃ r, k.classObject c = .ok r := by
  unfold classStatus classObject
  cases k.classState c with
  | error e => simp [Except.map]
  | ok cs => simp [Except.map]

/-- Some classes have been initialized further; none has gone back. -/
structure Precedes (k k' : Kernel) : Prop where
  /-- The classes are the same, with the same class objects. -/
  objects : k'.classObjects = k.classObjects
  statuses : ∀ c s s', k.classStatus c = .ok s → k'.classStatus c = .ok s' → s.Precedes s'

namespace Precedes

theorem exists_classStatus (h : k.Precedes k') :
    (∃ s, k'.classStatus c = .ok s) ↔ ∃ s, k.classStatus c = .ok s := by
  simp only [exists_classStatus_iff, classObject_eq_ok, h.objects]

theorem of_classes (h : k'.classes = k.classes) : k.Precedes k' where
  objects := by
    unfold classObjects
    rw [h]
  statuses c s s' hs hs' := by
    rw [classStatus_congr h, hs] at hs'
    cases hs'
    exact .stays s

instance : IsPreorder Kernel Precedes where
  refl _ := of_classes rfl
  trans k₁ k₂ k₃ h h' := by
    refine ⟨h'.objects.trans h.objects, fun c s s' hs hs' => ?_⟩
    obtain ⟨s₂, hs₂⟩ := h.exists_classStatus.mpr ⟨s, hs⟩
    exact IsTrans.trans _ _ _ (h.statuses c s s₂ hs hs₂) (h'.statuses c s₂ s' hs₂ hs')

/-- A class that a thread may use it may use from then on. -/
theorem usable (h : k.Precedes k') (hc : k.Usable t c) : k'.Usable t c := by
  have hstatus : ∃ s, k.classStatus c = .ok s := hc.elim (fun h => ⟨_, h⟩) fun h => ⟨_, h⟩
  obtain ⟨s', hs'⟩ := h.exists_classStatus.mpr hstatus
  rcases hc with hc | hc
  · cases h.statuses c _ s' hc hs' with
    | stays => exact .inl hs'
    | ends => exact .inl hs'
  · cases h.statuses c _ s' hc hs' with
    | stays => exact .inr hs'
    | ends => exact .inl hs'

/-- A class that is not initialized at all was not before. -/
theorem uninitialized (h : k.Precedes k') (hc : k'.classStatus c = .ok .uninitialized) :
    k.classStatus c = .ok .uninitialized := by
  obtain ⟨s, hs⟩ := h.exists_classStatus.mp ⟨_, hc⟩
  cases h.statuses c s _ hs hc with
  | stays => exact hs

end Precedes

/-! ## Initializers that run -/

/-- How many activations of initializers of a class a thread has. -/
def initializers (k : Kernel) (u : ThreadId) (c : ClassId) : Nat :=
  (k.stack u).countP (·.isClassInitOf c)

/-- When it is settled what becomes of a thread, threads stay in their methods or have ended. -/
theorem Rests.stack (h : k.Rests k') (u : ThreadId) :
    k'.stack u = k.stack u ∧ (k'.Lives u → k.Lives u) ∨ k'.stack u = [] ∧ ¬ k'.Lives u := by
  cases hth' : k'.threads[u.index]? with
  | none =>
    refine .inr ⟨by simp [Kernel.stack, hth'], ?_⟩
    rintro ⟨th', hth, -⟩
    rw [hth'] at hth
    cases hth
  | some th' =>
    have hlives : k'.Lives u → th'.isAlive = true := by
      rintro ⟨th, hth, halive⟩
      rw [hth'] at hth
      cases hth
      exact halive
    rw [stack_of_thread hth']
    rcases h.threads u th' hth' with ⟨hended, hnil⟩ | ⟨th, hth, hframes, hlived⟩
    · refine .inr ⟨by rw [hnil]; rfl, fun hu => ?_⟩
      rw [hlives hu] at hended
      cases hended
    · rw [hframes, stack_of_thread hth]
      exact .inl ⟨rfl, fun hu => ⟨th, hth, hlived (hlives hu)⟩⟩

/-- A live thread in the initializer of a class holds the monitor of the class object. -/
theorem Accounted.heldBy_pos (h : k.Accounted) (htame : ∀ m ∈ k.stack u, m.Tame p) (hu : k.Lives u)
    (hin : 0 < k.initializers u c) {r : ObjRef} (hr : k.classObject c = .ok r) :
    0 < k.heap.heldBy r u := by
  obtain ⟨th, hth, halive⟩ := hu
  obtain ⟨m, hm, hc⟩ := List.countP_pos_iff.mp hin
  rw [stack_of_thread hth] at hm
  obtain ⟨f, hf, rfl⟩ := List.mem_map.mp hm
  simp only [Method.isClassInitOf, Bool.and_eq_true, beq_iff_eq] at hc
  have hmem : f.method ∈ k.stack u := by
    rw [stack_of_thread hth]
    exact hm
  obtain ⟨hs, hstatic⟩ := (htame _ hmem).holds hc.1
  rw [← h u th hth halive r]
  refine List.countP_pos_iff.mpr ⟨f, hf, Frame.needs_iff.mpr ⟨hs, ?_⟩⟩
  rw [lockTarget_eq_ok, if_pos hstatic]
  exact ⟨c, hc.2, classObject_eq_ok.mp hr⟩

/-! ## What a move does to a class -/

/-- Classes that are being initialized are guarded by the threads that do so. -/
structure Guarded (p : Program) (k : Kernel) : Prop where
  sound : k.Sound p
  accounted : k.Accounted
  tame : ∀ u, ∀ m ∈ k.stack u, m.Tame p
  /-- A live thread that initializes a class is in its initializer. -/
  inside : ∀ c u, k.classStatus c = .ok (.initializing u) → k.Lives u → 0 < k.initializers u c
  /-- Who initializes a class holds the monitor of its class object, even after having ended. -/
  held : ∀ c u r, k.classStatus c = .ok (.initializing u) → k.classObject c = .ok r →
    0 < k.heap.heldBy r u

/-- What a move of a thread does to a class. -/
inductive Treats (p : Program) (t : ThreadId) (c : ClassId) (k k' : Kernel) : Prop where
  /-- No initializer of the class is entered or left. It may be recorded that it is initialized. -/
  | spares (initializers : k'.initializers t c = k.initializers t c)
    (status : k'.classStatus c = k.classStatus c ∨
      k'.classStatus c = (k.classStatus c).map fun _ => .initialized)
  /-- The initializer is entered. -/
  | enters (initializers : k'.initializers t c = k.initializers t c + 1)
    (before : k.classStatus c = .ok .uninitialized)
    (after : k'.classStatus c = .ok (.initializing t))
    (above : ∀ d ∈ (p.chain c).tail, k.Usable t d)
  /-- The initializer is left. -/
  | leaves (initializers : k.initializers t c = k'.initializers t c + 1)
    (status : k'.classStatus c = (k.classStatus c).map fun _ => .initialized)

/-- Initializers of classes are counted by the stacks. -/
theorem initializers_congr (h : k'.stack u = k.stack u) :
    k'.initializers u c = k.initializers u c := by
  unfold initializers
  rw [h]

theorem initializers_cons {m : Method} (h : k'.stack u = m :: k.stack u) :
    k'.initializers u c = k.initializers u c + if m.isClassInitOf c then 1 else 0 := by
  unfold initializers
  rw [h, List.countP_cons]

/-- Initializers are entered and left by the thread that moves. -/
theorem Shift.initializers_of_ne (h : Shift p t k k') (hu : u ≠ t) :
    k'.initializers u c = k.initializers u c := by
  cases h with
  | stays stack => exact initializers_congr (congrFun stack u)
  | @stub v m stub _ stack others =>
    by_cases huv : u = v
    · subst huv
      simp [initializers_cons stack, stub.isClassInitOf c]
    · exact initializers_congr (others u huv)
  | enters _ _ _ others => exact initializers_congr (others u hu)
  | leaves _ others => exact initializers_congr (others u hu)

/-- The methods that threads are in after a move are tame. -/
theorem Shift.tame (hp : p.InitializesOnUse) (htame : ∀ u, ∀ m ∈ k.stack u, m.Tame p)
    (h : Shift p t k k') : ∀ u, ∀ m ∈ k'.stack u, m.Tame p := by
  have hpushed : ∀ {v : ThreadId} {m : Method}, m.Tame p → k'.stack v = m :: k.stack v →
      (∀ u, u ≠ v → k'.stack u = k.stack u) → ∀ u, ∀ m ∈ k'.stack u, m.Tame p := by
    intro v m hm hstack hothers u m' hm'
    by_cases hu : u = v
    · subst hu
      rw [hstack] at hm'
      rcases List.mem_cons.mp hm' with rfl | hm'
      · exact hm
      · exact htame u m' hm'
    · rw [hothers u hu] at hm'
      exact htame u m' hm'
  cases h with
  | stays stack => exact stack ▸ htame
  | stub stub spares stack others => exact hpushed (stub.tame spares) stack others
  | enters called _ stack others => exact hpushed (called.tame hp (htame t)) stack others
  | @leaves m stack others =>
    intro u m' hm'
    by_cases hu : u = t
    · subst hu
      exact htame u m' (stack ▸ List.mem_cons_of_mem m hm')
    · rw [others u hu] at hm'
      exact htame u m' hm'

namespace Guarded

/-- **A move enters the initializer of a class only if the class has not been initialized at all**,
which it is being from then on. -/
theorem treats (hp : p.InitializesOnUse) (h : k.Guarded p) (hshift : Shift p t k k') (c : ClassId) :
    Treats p t c k k' := by
  cases hshift with
  | stays stack classes =>
    refine .spares (initializers_congr (congrFun stack t)) ?_
    rcases classes with hsame | ⟨d, hmarked⟩
    · exact .inl (congrFun (classStatus_congr hsame) c)
    · rw [classStatus_of_marked hmarked]
      by_cases hdc : d = c
      · exact .inr (if_pos hdc)
      · exact .inl (if_neg hdc)
  | @stub v m stub _ stack others classes =>
    refine .spares ?_ (.inl (congrFun (classStatus_congr classes) c))
    by_cases htv : t = v
    · subst htv
      simp [initializers_cons stack, stub.isClassInitOf c]
    · exact initializers_congr (others t htv)
  | @enters m receiver heap called acquired stack others marks =>
    have hcount := initializers_cons (c := c) stack
    cases hc : m.isClassInitOf c with
    | false =>
      rw [hc] at hcount
      refine .spares hcount (.inl ?_)
      split at marks
      · rw [marks.classStatus, hc]
        rfl
      · rw [classStatus_congr marks]
    | true =>
      rw [hc] at hcount
      obtain ⟨hdue, habove⟩ := called.of_isClassInitOf hp (h.tame t) hc
      simp only [Method.isClassInitOf, Bool.and_eq_true, beq_iff_eq] at hc
      obtain ⟨hs, hstatic⟩ := (called.tame hp (h.tame t)).holds hc.1
      obtain ⟨r, hr⟩ := acquired.target hs
      have hobject : k.classObject c = .ok r := by
        rw [lockTarget_eq_ok, if_pos hstatic, hc.2] at hr
        obtain ⟨c', hc', hr⟩ := hr
        exact classObject_eq_ok.mpr (Option.some.inj hc' ▸ hr)
      obtain ⟨status, hstatus⟩ := exists_classStatus_iff.mpr ⟨r, hobject⟩
      -- the class is due, and another thread that initialized it would hold the monitor
      have huninitialized : status = .uninitialized := by
        cases status with
        | uninitialized => rfl
        | initialized => exact absurd (.inl hstatus) hdue
        | initializing u =>
          have hu : u ≠ t := fun hut => hdue (.inr (hut ▸ hstatus))
          have hheld := h.held c u r hstatus hobject
          rw [acquired.others hs hr hu] at hheld
          cases hheld
      subst huninitialized
      rw [if_pos hs] at marks
      refine .enters hcount hstatus ?_ habove
      rw [marks.classStatus, hstatus, if_pos]
      · rfl
      · simp [Method.isClassInitOf, hc]
  | @leaves m stack others marks =>
    have hcount := initializers_cons (c := c) stack
    have hstatus := marks.classStatus c
    cases hc : m.isClassInitOf c with
    | false =>
      rw [hc] at hcount hstatus
      exact .spares hcount.symm (.inl hstatus)
    | true =>
      rw [hc] at hcount hstatus
      exact .leaves hcount hstatus

/-- No status goes back in a move. -/
theorem precedes (hp : p.InitializesOnUse) (h : k.Guarded p) (ht : k.Runs t)
    (hmove : Move p t k k') : k.Precedes k' where
  objects := (Advance.of_move hmove).classObjects
  statuses c s s' hs hs' := by
    have hends : k'.classStatus c = (k.classStatus c).map (fun _ => .initialized) →
        s.Precedes s' := by
      intro he
      rw [hs', hs] at he
      cases he
      exact .ends s
    cases h.treats hp (hmove.shift hp ht) c with
    | spares _ status =>
      rcases status with hsame | hends'
      · rw [hsame, hs] at hs'
        cases hs'
        exact .stays s
      · exact hends hends'
    | enters _ before after =>
      rw [hs] at before
      rw [hs'] at after
      cases before
      cases after
      exact .begins t
    | leaves _ status => exact hends status

/-- A class that is being initialized after a move of a thread was before, or the thread has entered
the initializer. -/
theorem initializing_of_move (hp : p.InitializesOnUse) (h : k.Guarded p) (ht : k.Runs t)
    (hmove : Move p t k k') (hc : k'.classStatus c = .ok (.initializing u)) :
    k.classStatus c = .ok (.initializing u) ∧ k'.initializers u c = k.initializers u c ∨
      u = t ∧ 0 < k'.initializers t c := by
  have hshift := hmove.shift hp ht
  have hends : k'.classStatus c ≠ (k.classStatus c).map fun _ => .initialized := by
    intro he
    rw [hc] at he
    cases hs : k.classStatus c with
    | error e =>
      rw [hs] at he
      cases he
    | ok s =>
      rw [hs] at he
      cases he
  cases h.treats hp hshift c with
  | spares initializers status =>
    rcases status with hsame | hended
    · refine .inl ⟨hsame ▸ hc, ?_⟩
      by_cases hu : u = t
      · exact hu ▸ initializers
      · exact hshift.initializers_of_ne hu
    · exact absurd hended hends
  | enters initializers _ after =>
    rw [hc] at after
    cases after
    exact .inr ⟨rfl, by omega⟩
  | leaves _ status => exact absurd status hends

/-- A move keeps classes guarded. -/
theorem move (hp : p.InitializesOnUse) (h : k.Guarded p) (ht : k.Runs t) (hmove : Move p t k k') :
    k'.Guarded p := by
  have hadv := Advance.of_move hmove
  have haccounted := h.accounted.move hp.monitors h.sound ht hmove
  have htame := (hmove.shift hp ht).tame hp h.tame
  have hinside : ∀ c u, k'.classStatus c = .ok (.initializing u) → k'.Lives u →
      0 < k'.initializers u c := by
    intro c u hc hu
    rcases h.initializing_of_move hp ht hmove hc with ⟨hbefore, hcount⟩ | ⟨rfl, hpos⟩
    · obtain ⟨r, hr⟩ := exists_classStatus_iff.mp ⟨_, hbefore⟩
      obtain ⟨-, -, -, hthread⟩ := h.sound.exists_of_heldBy (h.held c u r hbefore hr)
      have hlived := hu.of_advance hadv hthread
      exact hcount ▸ h.inside c u hbefore hlived
    · exact hpos
  refine ⟨h.sound.advance ht.exists hadv, haccounted, htame, hinside, fun c u r hc hr => ?_⟩
  by_cases hu : k'.Lives u
  · exact haccounted.heldBy_pos (htame u) hu (hinside c u hc hu) hr
  · -- a thread that has ended is left alone
    have hut : u ≠ t := fun hut => hu (hut ▸ (ht.advance hadv).lives)
    rcases h.initializing_of_move hp ht hmove hc with ⟨hbefore, -⟩ | ⟨rfl, -⟩
    · rw [classObject_eq_ok, hadv.classObjects, ← classObject_eq_ok] at hr
      rw [hmove.heldBy_of_ne hut]
      exact h.held c u r hbefore hr
    · exact absurd rfl hut

/-- What becomes of a thread after its moves keeps classes guarded. -/
theorem rests (h : k.Guarded p) (hsound : k'.Sound p)
    (hrests : k.Rests k') : k'.Guarded p where
  sound := hsound
  accounted := h.accounted.rests hrests
  tame u m hm := by
    rcases hrests.stack u with ⟨hsame, -⟩ | ⟨hnil, -⟩
    · exact h.tame u m (hsame ▸ hm)
    · rw [hnil] at hm
      cases hm
  inside c u hc hu := by
    rw [classStatus_congr hrests.classes] at hc
    rcases hrests.stack u with ⟨hsame, hlived⟩ | ⟨-, hended⟩
    · rw [initializers_congr hsame]
      exact h.inside c u hc (hlived hu)
    · exact absurd hu hended
  held c u r hc hr := by
    rw [classStatus_congr hrests.classes] at hc
    unfold classObject classState at hr
    rw [hrests.classes] at hr
    rw [hrests.heap]
    exact h.held c u r hc hr

end Guarded

/-! ## What a turn does to all classes -/

/-- How a state goes on, as far as the initialization of classes is concerned. -/
structure Proceeds (p : Program) (k k' : Kernel) : Prop where
  guarded : k'.Guarded p
  precedes : k.Precedes k'
  /-- A thread that has entered the initializer of a class was the first to do so, and may use the
  superclasses. -/
  entered : ∀ t c, k.initializers t c < k'.initializers t c →
    k.classStatus c = .ok .uninitialized ∧ k'.classStatus c ≠ .ok .uninitialized ∧
      ∀ d ∈ (p.chain c).tail, k'.Usable t d

namespace Proceeds

theorem refl (h : k.Guarded p) : Proceeds p k k where
  guarded := h
  precedes := .of_classes rfl
  entered _ _ hlt := absurd hlt (Nat.lt_irrefl _)

theorem trans (h : Proceeds p k₁ k₂) (h' : Proceeds p k₂ k₃) : Proceeds p k₁ k₃ where
  guarded := h'.guarded
  precedes := IsTrans.trans _ _ _ h.precedes h'.precedes
  entered t c hlt := by
    by_cases hfirst : k₁.initializers t c < k₂.initializers t c
    · obtain ⟨hbefore, hafter, habove⟩ := h.entered t c hfirst
      exact ⟨hbefore, fun hc => hafter (h'.precedes.uninitialized hc),
        fun d hd => h'.precedes.usable (habove d hd)⟩
    · obtain ⟨hbefore, hafter⟩ := h'.entered t c (by omega)
      exact ⟨h.precedes.uninitialized hbefore, hafter⟩

theorem of_move (hp : p.InitializesOnUse) (h : k.Guarded p) (ht : k.Runs t)
    (hmove : Move p t k k') : Proceeds p k k' where
  guarded := h.move hp ht hmove
  precedes := h.precedes hp ht hmove
  entered u c hlt := by
    have hshift := hmove.shift hp ht
    by_cases hu : u = t
    · subst hu
      cases h.treats hp hshift c with
      | spares initializers => omega
      | enters _ before after above =>
        refine ⟨before, by rw [after]; exact nofun, fun d hd => ?_⟩
        exact (h.precedes hp ht hmove).usable (above d hd)
      | leaves initializers => omega
    · rw [hshift.initializers_of_ne hu] at hlt
      exact absurd hlt (Nat.lt_irrefl _)

/-- What becomes of a thread after its moves does nothing to classes. -/
theorem of_rests (h : k.Guarded p) (hsound : k'.Sound p) (hrests : k.Rests k') :
    Proceeds p k k' where
  guarded := h.rests hsound hrests
  precedes := .of_classes hrests.classes
  entered t c hlt := by
    rcases hrests.stack t with ⟨hsame, -⟩ | ⟨hnil, -⟩
    · rw [initializers_congr hsame] at hlt
      exact absurd hlt (Nat.lt_irrefl _)
    · simp [initializers, hnil] at hlt

/-- Any number of moves. -/
theorem of_moves (hp : p.InitializesOnUse) (h : k.Guarded p) (ht : k.Runs t)
    (hmoves : ReflTransGen (Move p t) k k') : Proceeds p k k' := by
  induction hmoves with
  | refl => exact .refl h
  | tail hfirst hlast ih =>
    exact ih.trans (.of_move hp ih.guarded (ht.advance (.of_moves hfirst)) hlast)

/-- A turn of a thread. -/
theorem of_turn (hp : p.InitializesOnUse) (h : k.Guarded p) (hturn : Turn p k k') :
    Proceeds p k k' := by
  obtain ⟨t, k₁, hruns, hmoves, hrests⟩ := hturn.moves_then_rests
  have hmoved := Proceeds.of_moves hp h hruns hmoves
  exact hmoved.trans (.of_rests hmoved.guarded (h.sound.turn hturn) hrests)

end Proceeds

/-! ## The first state -/

/-- At first no class has been initialized. -/
theorem Started.uninitialized (h : Started p k) (hc : k.classStatus c = .ok s) :
    s = .uninitialized := by
  have halloc : ∀ (i : ClassId) (cs : List Class) (heap : Heap) (states : Array ClassState),
      (∀ st ∈ states.toList, st.status = .uninitialized) →
      ∀ st ∈ (allocClassObjects i cs (heap, states)).2.toList, st.status = .uninitialized := by
    intro i cs
    induction cs with
    | nil => exact fun _ _ hstates => hstates
    | cons k ks ih =>
      refine fun heap states hstates => ih _ _ fun st hst => ?_
      simp only [Array.toList_push, List.mem_append, List.mem_singleton] at hst
      rcases hst with hst | rfl
      · exact hstates st hst
      · rfl
  cases h with
  | main =>
    obtain ⟨cs, hcs, rfl⟩ := classStatus_eq_ok.mp hc
    exact halloc _ _ _ _ (by simp) cs (Array.mem_toList_iff.mpr (Array.mem_of_getElem? hcs))

theorem Guarded.start (h : Started p k) : k.Guarded p where
  sound := .start h
  accounted := .start h
  tame u m hm := by
    obtain ⟨th, hth, f, hf, rfl⟩ := exists_thread_of_mem_stack hm
    obtain ⟨⟨th₀, f₀, hthreads, -, -, hframes, hstub⟩, -⟩ := h.inv
    refine Method.IsStub.tame ?_ (h.sparesInitializers u th hth f hf)
    have hth₀ : th = th₀ := by
      obtain ⟨i⟩ := u
      rw [hthreads] at hth
      cases i with
      | zero => simpa using hth.symm
      | succ i => simp at hth
    rw [hth₀, hframes, List.mem_singleton] at hf
    exact hf ▸ hstub
  inside c u hc := by cases h.uninitialized hc
  held c u r hc := by cases h.uninitialized hc

end Kernel

end Interleave
