import Interleave.Proofs.Machine.Sound
import Interleave.Proofs.Provenance

/-!
# States are told apart

The fingerprint of a state leaves out the bodies of the methods in frames. Most of them can be told
from what it does not leave out: a method of the program is in the table under its id, and the stub
at the bottom of a thread is settled by the object of the thread, or by the main method. So states
that are reached from the same start have the same fingerprint only if they are the same, or if
stacks part at an instruction that needs two classes with initializers.
-/

namespace Interleave

open Effect Relation

namespace Kernel

/-- The methods by which a thread of an object may have been begun: the main thread by the stub that
calls the main method, another one by the stub that runs the body of its object. -/
def Begins (p : Program) (stub : Method) (k : Kernel) (u : ThreadId) (r : ObjRef) (m : Method) :
    Prop :=
  u = .main ∧ m = stub ∨ u ≠ .main ∧ k.RunsBody p r m

/-- The methods in frames can be told from what the fingerprint shows, but for initializers. -/
structure Identified (p : Program) (stub : Method) (k : Kernel) : Prop where
  /-- The main thread is there. -/
  main : ∃ th, k.threads[ThreadId.main.index]? = some th
  /-- Frames stand on each other, down to the stub by which the thread was begun. -/
  standing : ∀ (u : ThreadId) th, k.threads[u.index]? = some th →
    p.Stacked (k.Begins p stub u th.object) th.frames

variable {p : Program} {stub : Method} {k k' : Kernel} {t u : ThreadId}

/-- The stub by which a thread was begun is settled by its object. -/
theorem RunsBody.unique {r : ObjRef} {m m' : Method} (h : k.RunsBody p r m)
    (h' : k.RunsBody p r m') : m = m' := by
  obtain ⟨o, body, ho, hbody, made⟩ := h
  obtain ⟨o', body', ho', hbody', made'⟩ := h'
  obtain rfl : o = o' := Option.some.inj (ho.symm.trans ho')
  obtain rfl : body = body' := Option.some.inj (hbody.symm.trans hbody')
  exact Except.ok.inj (made.symm.trans made')

/-- Equal heaps settle the same stub for a thread of the same object. -/
theorem Begins.unique {r : ObjRef} {m m' : Method} (h : k.Begins p stub u r m)
    (h' : k'.Begins p stub u r m') (hheap : k.heap = k'.heap) : m = m' := by
  rcases h with ⟨hu, rfl⟩ | ⟨hu, hbody⟩
  · rcases h' with ⟨-, rfl⟩ | ⟨hu', -⟩
    · rfl
    · exact absurd hu hu'
  · rcases h' with ⟨hu', -⟩ | ⟨-, hbody'⟩
    · exact absurd hu' hu
    · exact hbody.unique (hbody'.of_objects fun _ o ho => ⟨o, hheap ▸ ho, rfl⟩)

/-- While objects keep their classes, a thread stays begun by the same stub. -/
theorem Begins.advance {r : ObjRef} {m : Method} (h : k.Begins p stub u r m)
    (hadv : Advance p t k k') : k'.Begins p stub u r m :=
  h.imp_right fun ⟨hu, hbody⟩ => ⟨hu, hbody.of_objects hadv.objects⟩

/-! ## Moves -/

/-- After a move, the frames of the thread that moves stand on each other if they did before. -/
theorem Move.stacked {B : Method → Prop} {th th' : Thread} (h : Move p t k k')
    (hth : k.threads[t.index]? = some th) (hth' : k'.threads[t.index]? = some th')
    (hs : p.Stacked B th.frames) : p.Stacked B th'.frames := by
  have hsame : ∀ {th₁ : Thread}, k.threads[t.index]? = some th₁ → th₁ = th := fun h =>
    Option.some.inj (h.symm.trans hth)
  have hmodified : ∀ {g : Thread → Thread},
      (k.modifyThread t g).threads[t.index]? = some th' → th' = g th := by
    intro g h
    rw [getElem?_modifyThread, if_pos rfl, hth] at h
    exact (Option.some.inj h).symm
  have htop : ∀ {f}, k.topFrame t = .ok f → ∃ rest, th.frames = f :: rest := by
    intro f h
    obtain ⟨th₁, rest, hth₁, hframes⟩ := topFrame_eq_ok.mp h
    exact ⟨rest, hsame hth₁ ▸ hframes⟩
  cases h with
  | frame top same =>
    obtain ⟨rest, hframes⟩ := htop top
    rw [hmodified hth', Thread.setTop, hframes]
    exact (hframes ▸ hs).setTop same
  | heap => exact hsame hth' ▸ hs
  | settle => exact hsame hth' ▸ hs
  | initializer found init made stands needs =>
    obtain ⟨g, top, instruction⟩ := stands
    obtain ⟨rest, hframes⟩ := htop top
    rw [hmodified hth', Thread.pushFrame, hframes]
    exact .upon (.initializer instruction needs ⟨_, _, found, init, made⟩) (hframes ▸ hs)
  | lock => exact hsame hth' ▸ hs
  | unlock =>
    obtain ⟨th₁, hth₁, hframes⟩ := exists_of_released hth'
    rw [hframes, hsame hth₁]
    exact hs
  | @enter f f' g heap cs top same called =>
    obtain ⟨rest, hframes⟩ := htop top
    rw [getElem?_modifyThread, if_pos rfl, getElem?_modifyThread, if_pos rfl] at hth'
    replace hth' : th' = (th.setTop f').pushFrame g := by
      rw [show ({ k with heap, classes := cs } : Kernel).threads = k.threads from rfl, hth] at hth'
      exact (Option.some.inj hth').symm
    rw [hth', Thread.pushFrame, Thread.setTop, hframes]
    exact .upon (.declared called.declares) ((hframes ▸ hs).setTop same)
  | @leave f th₀ rest k₁ cs thread frames released =>
    obtain ⟨th₁, hth₁, hframes⟩ := released.exists_thread hth'
    rw [getElem?_modifyThread, if_pos rfl, hth] at hth₁
    rw [hframes, ← Option.some.inj hth₁]
    exact (frames ▸ hsame thread ▸ hs).tail
  | @start r =>
    have hne : t ≠ (k.addThread r).1 := by
      rintro rfl
      simp [addThread] at hth
    rw [getElem?_modifyThread, if_neg (Ne.symm hne)] at hth'
    replace hth' : (k.addThread r).2.threads[t.index]? = some th' := hth'
    rw [getElem?_addThread, if_neg hne] at hth'
    exact hsame hth' ▸ hs

namespace Identified

/-- A move keeps methods identified. -/
theorem move (hk : Identified p stub k) (h : Move p t k k') : Identified p stub k' where
  main := by
    obtain ⟨th, hth⟩ := hk.main
    obtain ⟨th', hth', -⟩ := (Advance.of_move h).old _ th hth
    exact ⟨th', hth'⟩
  standing u th' hth' := by
    have hadv := Advance.of_move h
    cases hth : k.threads[u.index]? with
    | none =>
      obtain ⟨-, -, f, hframes, hbody⟩ := h.brings hth hth'
      rw [hframes]
      refine .bottom (.inr ⟨?_, hbody⟩)
      rintro rfl
      obtain ⟨th, hmain⟩ := hk.main
      rw [hth] at hmain
      cases hmain
    | some th =>
      obtain ⟨th₁, hth₁, hthread⟩ := hadv.old u th hth
      obtain rfl : th' = th₁ := Option.some.inj (hth'.symm.trans hth₁)
      rw [hthread.object]
      refine Program.Stacked.imp ?_ fun m hm => Begins.advance hm hadv
      by_cases hu : u = t
      · subst hu
        exact h.stacked hth hth' (hk.standing u th hth)
      · rw [hthread.frames hu]
        exact hk.standing u th hth

/-- Any number of moves keep them identified. -/
theorem moves (hk : Identified p stub k) (h : ReflTransGen (Move p t) k k') :
    Identified p stub k' := by
  induction h with
  | refl => exact hk
  | tail _ hlast ih => exact ih.move hlast

/-- A change of a thread's status and frames keeps methods identified, if the frames are left alone
or taken away. -/
theorem modifyThread (hk : Identified p stub k) {g : Thread → Thread}
    (hobject : ∀ th, (g th).object = th.object)
    (hframes : ∀ th, (g th).frames = th.frames ∨ (g th).frames = []) :
    Identified p stub (k.modifyThread t g) where
  main := by
    obtain ⟨th, hth⟩ := hk.main
    rw [getElem?_modifyThread]
    split
    · exact ⟨g th, by rw [hth]; rfl⟩
    · exact ⟨th, hth⟩
  standing u th' hth' := by
    rw [getElem?_modifyThread] at hth'
    split at hth'
    · obtain ⟨th, hth, rfl⟩ := Option.map_eq_some_iff.mp hth'
      rw [hobject]
      rcases hframes th with hsame | hnil
      · rw [hsame]
        exact hk.standing u th hth
      · rw [hnil]
        exact .empty
    · exact hk.standing u th' hth'

/-- Those that are woken stay identified. -/
theorem wake (hk : Identified p stub k) (s : ThreadStatus) : Identified p stub (k.wake s) where
  main := by
    obtain ⟨th, hth⟩ := hk.main
    exact ⟨_, by rw [getElem?_wake, hth]; rfl⟩
  standing u th' hth' := by
    rw [getElem?_wake] at hth'
    obtain ⟨th, hth, rfl⟩ := Option.map_eq_some_iff.mp hth'
    have hstack := hk.standing u th hth
    split <;> exact hstack

/-- A turn of a thread keeps methods identified. -/
theorem turn (hk : Identified p stub k) (h : Turn p k k') : Identified p stub k' := by
  cases h with
  | ran _ moves => exact hk.moves moves
  | stalled _ moves _ => exact (hk.moves moves).modifyThread (fun _ => rfl) fun _ => .inl rfl
  | @ended t k' _ moves =>
    have hended : Identified p stub (k'.modifyThread t Thread.terminate) :=
      (hk.moves moves).modifyThread (fun _ => rfl) fun _ => .inr rfl
    exact hended.wake _

/-- In the first state there is one frame, of the stub that calls the main method. -/
theorem exists_of_started (h : Started p k) : ∃ stub, Identified p stub k := by
  obtain ⟨⟨th, f, hthreads, -, -, hframes, -⟩, -⟩ := h.inv
  refine ⟨f.method, ⟨th, by rw [hthreads]; rfl⟩, ?_⟩
  rintro ⟨u⟩ th' hth'
  rw [hthreads] at hth'
  cases u with
  | zero =>
    obtain rfl : th = th' := by simpa using hth'
    rw [hframes]
    exact .bottom (.inl ⟨rfl, rfl⟩)
  | succ u => simp at hth'

end Identified

/-! ## Fingerprints -/

/-- States with the same fingerprint show the same of their threads. -/
theorem view_eq_of_fingerprint (h : k.fingerprint = k'.fingerprint) {th th' : Thread}
    (hth : k.threads[u.index]? = some th) (hth' : k'.threads[u.index]? = some th') :
    th.view = th'.view := by
  have hviews := congrArg (fun s : Fingerprint => s.threads[u.index]?) h
  simp only [fingerprint, Array.getElem?_map, hth, hth', Option.map_some] at hviews
  exact Option.some.inj hviews

/-- **Frames are told apart by fingerprints**, but for stacks that part at an instruction that needs
two classes with initializers. -/
theorem frames_eq_or_parted (hp : p.WellFormed) (hk : Identified p stub k)
    (hk' : Identified p stub k') (h : k.fingerprint = k'.fingerprint) {th th' : Thread}
    (hth : k.threads[u.index]? = some th) (hth' : k'.threads[u.index]? = some th') :
    th.frames = th'.frames ∨ p.Parted th.frames th'.frames := by
  have hheap : k.heap = k'.heap := congrArg Fingerprint.heap h
  have hview : th.view = th'.view := view_eq_of_fingerprint h hth hth'
  have hobject : th.object = th'.object := congrArg Thread.View.object hview
  refine (hk.standing u th hth).eq_or_parted hp (fun m m' hm hm' => ?_) (hk'.standing u th' hth')
    (congrArg Thread.View.frames hview)
  exact Begins.unique hm (hobject ▸ hm') hheap

/-- **States are told apart by their fingerprints** if initializers are lone. -/
theorem eq_of_fingerprint (hp : p.WellFormed) (hlone : p.HasLoneInitializers)
    (hk : Identified p stub k) (hk' : Identified p stub k') (h : k.fingerprint = k'.fingerprint) :
    k = k' := by
  have hheap : k.heap = k'.heap := congrArg Fingerprint.heap h
  have hviews : k.threads.map Thread.view = k'.threads.map Thread.view :=
    congrArg Fingerprint.threads h
  have hthreads : k.threads = k'.threads := by
    refine Array.ext_getElem? fun i => ?_
    have hview := congrArg (·[i]?) hviews
    simp only [Array.getElem?_map] at hview
    cases hth : k.threads[i]? with
    | none =>
      cases hth' : k'.threads[i]? with
      | none => rfl
      | some th' => simp [hth, hth'] at hview
    | some th =>
      cases hth' : k'.threads[i]? with
      | none => simp [hth, hth'] at hview
      | some th' =>
        replace hview : th.view = th'.view := view_eq_of_fingerprint (u := ⟨i⟩) h hth hth'
        have hframes : th.frames = th'.frames :=
          (frames_eq_or_parted (u := ⟨i⟩) hp hk hk' h hth hth').resolve_right hlone.not_parted
        have hobject : th.object = th'.object := congrArg Thread.View.object hview
        have hid : th.id = th'.id := congrArg Thread.View.id hview
        have hstatus : th.status = th'.status := congrArg Thread.View.status hview
        cases th
        cases th'
        simp_all
  have hclasses : k.classes = k'.classes := congrArg Fingerprint.classes h
  cases k
  cases k'
  simp_all

end Kernel

/-! ## Machines -/

namespace Machine

variable {p : Program} {config : Config} {listening : Bool} {name : String} {m₀ m m' : Machine}

/-- **Fingerprints tell states apart.** Take two states that transitions lead to from the same
start. If they have the same fingerprint, each thread is in the same frames in both of them, or its
stacks part at an instruction that needs two classes with initializers. If no class with an
initializer is above another one, the states are the same. -/
theorem Leads.eq_or_parted_of_fingerprint (hp : p.Built)
    (hstart : start name (Machine.new p config listening) = .ok () m₀) (hm : m₀.Leads m)
    (hm' : m₀.Leads m') (h : m.kernel.fingerprint = m'.kernel.fingerprint) :
    (∀ (u : ThreadId) th th', m.kernel.threads[u.index]? = some th →
      m'.kernel.threads[u.index]? = some th' →
        th.frames = th'.frames ∨ p.Parted th.frames th'.frames) ∧
    (p.HasLoneInitializers → m.kernel = m'.kernel) := by
  obtain ⟨⟨hprogram, -⟩, hstarted, hready, -⟩ := start_eq_ok hstart
  obtain ⟨stub, hidentified⟩ := Kernel.Identified.exists_of_started hstarted
  have hled : ∀ {n : Machine}, m₀.Leads n → n.kernel.Identified p stub := fun hn =>
    hn.kernel_induction hready.hostCall (fun _ _ hk hturn => hk.turn (hprogram ▸ hturn)) hidentified
  constructor
  · intro u th th' hth hth'
    exact Kernel.frames_eq_or_parted hp.wellFormed (hled hm) (hled hm') h hth hth'
  · intro hlone
    exact Kernel.eq_of_fingerprint hp.wellFormed hlone (hled hm) (hled hm') h

/-- A class with an initializer below another one. One thread calls a method of the class below,
while the main thread uses the class above. -/
def nestedInitializers : Demo.Build Unit := do
  let upper ← Demo.declare { name := "demo/Upper" }
  Demo.define upper "<clinit>" .static 0 (·.emit .voidReturn)
  let lower ← Demo.declare { name := "demo/Lower", superclass := "demo/Upper" }
  Demo.define lower "<clinit>" .static 0 (·.emit .voidReturn)
  Demo.define lower "go" Demo.mainModifiers 0 (·.emit .voidReturn)
  Demo.defineWorker Demo.workerClass fun a =>
    (a.invoke .invokeStatic "demo/Lower" "go" "()V").emit .voidReturn
  let main ← Demo.declareMain []
  Demo.define main "main" Demo.mainModifiers 0 fun a =>
    let a := (a.onClass .new Demo.workerClass).emit .threadStart
    (a.onClass .new "demo/Upper").emit .voidReturn

theorem keepsBuilt_nestedInitializers : Demo.Keeps Program.Built nestedInitializers := by
  refine (Demo.keepsBuilt_declare _).bind fun _ => ?_
  refine (Demo.keepsBuilt_define _ _ _ _ _).bind fun _ => ?_
  refine (Demo.keepsBuilt_declare _).bind fun _ => ?_
  refine (Demo.keepsBuilt_define _ _ _ _ _).bind fun _ => ?_
  refine (Demo.keepsBuilt_define _ _ _ _ _).bind fun _ => Demo.Keeps.bind ?_ fun _ => ?_
  · exact (Demo.keepsBuilt_declare _).bind fun _ => Demo.keepsBuilt_define _ _ _ _ _
  · exact (Demo.keepsBuilt_declare _).bind fun _ => Demo.keepsBuilt_define _ _ _ _ _

/-- Is a thread about to run the initializer of the named class? -/
def isInitializing (u : ThreadId) (className : String) (m : Machine) : Bool :=
  match m.kernel.topFrame u with
  | .error _ => false
  | .ok f =>
    match f.instruction with
    | .error _ => false
    | .ok i => i.op == .invokeClinit && decide (i.className = .ok className)

theorem isInitializing_iff {u : ThreadId} {className : String} :
    isInitializing u className m = true ↔ ∃ f i, m.kernel.topFrame u = .ok f ∧
      f.instruction = .ok i ∧ i.op = .invokeClinit ∧ i.className = .ok className := by
  unfold isInitializing
  cases m.kernel.topFrame u with
  | error e => simp
  | ok f => cases hi : f.instruction <;> simp [hi]

/-- In one of two states with the same fingerprint, the thread is about to run the initializer of
the class above, in the other that of the class below. -/
theorem exists_nestedInitializers : ∃ p m₀ m m',
    nestedInitializers.run (Program.base .plain) = .ok ((), p) ∧
      start Demo.mainClass (Machine.new p { maxTransitionLength := 1 } false) = .ok () m₀ ∧
      m₀.Leads m ∧ m₀.Leads m' ∧ m.kernel.fingerprint = m'.kernel.fingerprint ∧
      isInitializing ⟨1⟩ "demo/Upper" m = true ∧ isInitializing ⟨1⟩ "demo/Lower" m' = true := by
  -- the worker needs the classes before the one above is initialized, or after that
  obtain ⟨p, m₀, hbuild, hstart, htest⟩ := exists_start_of_build nestedInitializers
    { maxTransitionLength := 1 }
    (fun _ m₀ => gives (follow [0, 0, 0, 1, 1, 0, 0, 0, 0, 0]) m₀ fun _ m =>
      gives (follow [0, 0, 0, 1, 0, 0, 0, 0, 0, 1]) m₀ fun _ m' =>
        decide (m.kernel.fingerprint = m'.kernel.fingerprint) &&
          isInitializing ⟨1⟩ "demo/Upper" m && isInitializing ⟨1⟩ "demo/Lower" m')
    (by decide +kernel)
  simp only [gives_iff, Bool.and_eq_true, decide_eq_true_eq] at htest
  obtain ⟨_, m, hfollow, _, m', hfollow', ⟨hsame, hupper⟩, hlower⟩ := htest
  have hready := (start_eq_ok hstart).2.2.1
  exact ⟨p, m₀, m, m', hbuild, hstart, (hready.reaches_follow hfollow).leads,
    (hready.reaches_follow hfollow').leads, hsame, hupper, hlower⟩

/-- The stacks of the worker part there. -/
theorem Leads.eq_or_parted_nestedInitializers : ∃ p m₀ m m' th th',
    nestedInitializers.run (Program.base .plain) = .ok ((), p) ∧ p.Built ∧
      start Demo.mainClass (Machine.new p { maxTransitionLength := 1 } false) = .ok () m₀ ∧
      m₀.Leads m ∧ m₀.Leads m' ∧ m.kernel.fingerprint = m'.kernel.fingerprint ∧
      m.kernel.threads[1]? = some th ∧ m'.kernel.threads[1]? = some th' ∧
      p.Parted th.frames th'.frames := by
  obtain ⟨p, m₀, m, m', hbuild, hstart, hm, hm', h, hupper, hlower⟩ := exists_nestedInitializers
  obtain ⟨f, i, htop, hi, -, hname⟩ := isInitializing_iff.mp hupper
  obtain ⟨f', i', htop', hi', -, hname'⟩ := isInitializing_iff.mp hlower
  obtain ⟨th, rest, hth, hframes⟩ := Kernel.topFrame_eq_ok.mp htop
  obtain ⟨th', rest', hth', hframes'⟩ := Kernel.topFrame_eq_ok.mp htop'
  have hp : p.Built := keepsBuilt_nestedInitializers (.base .plain) hbuild
  refine ⟨p, m₀, m, m', th, th', hbuild, hp, hstart, hm, hm', h, hth, hth', ?_⟩
  have halternative :=
    (Leads.eq_or_parted_of_fingerprint hp hstart hm hm' h).1 ⟨1⟩ th th' hth hth'
  refine halternative.resolve_left ?_
  -- the same frame cannot be about to run two initializers
  intro heq
  rw [hframes, hframes'] at heq
  obtain rfl : f = f' := (List.cons.inj heq).1
  obtain rfl : i = i' := Except.ok.inj (hi.symm.trans hi')
  rw [hname] at hname'
  exact absurd (Except.ok.inj hname') (by decide)

/-- So a fingerprint does not settle the code that runs: in these two states, the frames on top of
the worker look the same, and are about to execute different instructions. -/
theorem exists_different_code_of_fingerprint : ∃ p m₀ m m' f f' i i',
    nestedInitializers.run (Program.base .plain) = .ok ((), p) ∧ p.Built ∧
      start Demo.mainClass (Machine.new p { maxTransitionLength := 1 } false) = .ok () m₀ ∧
      m₀.Leads m ∧ m₀.Leads m' ∧ m.kernel.fingerprint = m'.kernel.fingerprint ∧
      m.kernel.topFrame ⟨1⟩ = .ok f ∧ m'.kernel.topFrame ⟨1⟩ = .ok f' ∧ f.view = f'.view ∧
      f.method.code ≠ f'.method.code ∧ (f.instruction = .ok i ∧ i.op = .invokeClinit ∧
        i.className = .ok "demo/Upper") ∧ (f'.instruction = .ok i' ∧ i'.op = .invokeClinit ∧
          i'.className = .ok "demo/Lower") := by
  obtain ⟨p, m₀, m, m', hbuild, hstart, hm, hm', h, hupper, hlower⟩ := exists_nestedInitializers
  obtain ⟨f, i, htop, hi, hop, hname⟩ := isInitializing_iff.mp hupper
  obtain ⟨f', i', htop', hi', hop', hname'⟩ := isInitializing_iff.mp hlower
  obtain ⟨th, rest, hth, hframes⟩ := Kernel.topFrame_eq_ok.mp htop
  obtain ⟨th', rest', hth', hframes'⟩ := Kernel.topFrame_eq_ok.mp htop'
  have hview : f.view = f'.view := by
    have hviews : th.frames.map Frame.view = th'.frames.map Frame.view :=
      congrArg Thread.View.frames (Kernel.view_eq_of_fingerprint (u := ⟨1⟩) h hth hth')
    rw [hframes, hframes'] at hviews
    exact (List.cons.inj hviews).1
  have hpc : f.pc = f'.pc := congrArg Frame.View.pc hview
  refine ⟨p, m₀, m, m', f, f', i, i', hbuild,
    keepsBuilt_nestedInitializers (.base .plain) hbuild, hstart, hm, hm', h, htop, htop', hview, ?_,
    ⟨hi, hop, hname⟩, hi', hop', hname'⟩
  intro hcode
  have hinstruction : f.instruction? = f'.instruction? := by
    unfold Frame.instruction? Method.instruction?
    rw [hcode, hpc]
  have heq : i = i' := by
    unfold Frame.instruction at hi hi'
    rw [← hinstruction] at hi'
    cases hf : f.instruction? with
    | none =>
      rw [hf] at hi
      cases hi
    | some j =>
      rw [hf] at hi hi'
      exact (Except.ok.inj hi).symm.trans (Except.ok.inj hi')
  rw [heq, hname'] at hname
  exact absurd (Except.ok.inj hname) (by decide)

end Machine

end Interleave
