import BlockLang.Proofs.CallSequence
import BlockLang.Proofs.FrameCells

namespace BlockLang

open Source

lemma Routine.enter_after {r : Routine} {args : List Word} {d : Destination} {m : Machine}
    (hsp : 0 ≤ m.sp) (hargs : m.sp + 8 * args.length ≤ m.memory.size) :
    (r.enter args d).after m = m.entered r args := by
  have h := Routine.enter_eq (r := r) (d := d) hsp hargs
  split at h
  · exact Exec.after_error h
  · exact Exec.after_ok h

namespace Layout

variable {types : NodeTable Ty} {l : Layout} {f g : Frame}

/-- A callee with given parameters has been entered from a function with frame `f`: the static link and
the arguments are where it looks for them, in the outgoing area of the caller. Nothing has changed
below that area, nor from the saved frame pointer of the caller on, where its variables are. -/
structure Passes (l : Layout) (f g : Frame) (ps : List Param) (link : Word) (ws : List Word)
    (m m' : Machine) : Prop where
  fp : m'.fp = m.sp
  sp : m'.sp = m.sp - g.size
  link_at : m'.memory.load m'.fp = .ok link
  arg_at : ∀ (k : Nat) (q : Param) (w : Word), ps[k]? = some q → ws[k]? = some w →
    ∃ offset, l.accesses[q.node.id]? = some (.param wordSize offset g.level) ∧
      m'.memory.load (m'.fp + offset) = .ok w ∧ wordSize ≤ offset ∧ offset + wordSize ≤ f.outgoing
  rest : ∀ i : Nat, i < m.sp ∨ m.fp - f.oldFp ≤ i → m'.memory.bytes[i]? = m.memory.bytes[i]?

lemma Arranges.passes {vs : List NodeId} {ps : List Param} {vts pts : List Ty}
    (h : Arranges types l g vs (ps.map fun q => q.node.id) vts pts)
    (hv : ∀ q ∈ ps, types[q.node.id]? ≠ some .void) {r : Routine} (hr : r.frame = g)
    {d : Destination} {link : Word} {ws : List Word} {m : Machine} (hws : ws.length = ps.length)
    (hroom : 8 + 8 * ps.length ≤ f.outgoing) (hrun : m.sp = m.fp - f.size)
    (hsp : 0 ≤ m.sp) (hsize : m.sp + f.outgoing ≤ m.memory.size) :
    Passes l f g ps link ws m ((r.enter (link :: ws) d).after m) := by
  have hword : wordSize = 8 := rfl
  have hargs : m.sp + 8 * (link :: ws).length ≤ m.memory.size := by
    rw [List.length_cons, hws]
    push_cast
    omega
  have hsizes : pts.map Ty.paramSize = List.replicate ps.length 8 := by
    have hmap := h.params.map_eq (g := Ty.paramSize) (s := 8)
    rw [List.length_map] at hmap
    refine hmap fun i hi t ht => Ty.paramSize_of_ne_void fun he => ?_
    obtain ⟨q, hq, rfl⟩ := List.mem_map.mp hi
    exact hv q hq (he ▸ ht)
  rw [Routine.enter_after hsp hargs]
  refine ⟨rfl, hr ▸ rfl, ?_, fun k q w hq hw => ?_, fun i hi => ?_⟩
  · have hload := Memory.load_writeAll (i := 0) hsp hargs rfl
    rwa [Int.natCast_zero, Int.mul_zero, Int.add_zero] at hload
  · have hk := (List.getElem?_eq_some_iff.mp hq).1
    have hat := h.paramsAt k q.node.id 8 (by simp [hq]) (by simp [hsizes, hk])
    have hload := Memory.load_writeAll (i := k + 1) hsp hargs hw
    have hoffset : wordSize + (k : Int) * 8 = 8 * (k + 1 : Nat) := by
      push_cast
      omega
    rw [hsizes, sum_take_replicate (Nat.le_of_lt hk), hoffset] at hat
    exact ⟨_, hat, hload, by omega, by omega⟩
  · have hold : f.size = f.oldFp + f.outgoing := rfl
    refine Memory.getElem?_write _ hsp _ ?_
    rw [Word.length_allBytes, List.length_cons, hws]
    push_cast
    omega

end Layout

/-- The outgoing area of a function is as large as its largest call needs, and a call stores its
arguments there, each one where the callee has the parameter for it. -/
theorem arguments_meet_parameters {p : Source.Program} {l : Layout} (hn : p.ids.Nodup)
    (hl : p.layout = .ok l) {outer : List NodeId} {n : Node} {x : String} {ps : List Param}
    {t : TypeExpr} {b : Expr} (ho : ⟨outer, .defn (.func n x ps t b)⟩ ∈ p.occurrences) :
    ∃ f, l.frames[n.id]? = some f ∧ Layout.Outgoing p.tables.types b.items 0 f ∧
      ∀ c y args, .expr (.call c y args) ∈ b.items →
        (∀ e ∈ args, p.tables.types[e.node.id]? ≠ some .void) →
      ∀ outer' n' x' ps' t' b', (⟨outer', .defn (.func n' x' ps' t' b')⟩ : Occurrence) ∈ p.occurrences →
        ps'.length = args.length → (∀ q ∈ ps', p.tables.types[q.node.id]? ≠ some .void) →
      ∃ g, l.frames[n'.id]? = some g ∧
        ∀ (r : Routine) (d : Destination) (link : Word) (ws : List Word) (m : Machine),
          r.frame = g → ws.length = args.length → m.sp = m.fp - f.size → 0 ≤ m.sp →
          m.sp + f.outgoing ≤ m.memory.size →
          Layout.Passes l f g ps' link ws m ((r.enter (link :: ws) d).after m) := by
  obtain ⟨f, -, -, hf, -, -, hout⟩ := Layout.layout_arranges hl hn ho
  refine ⟨f, hf, hout, fun c y args hc hargs outer' n' x' ps' t' b' ho' hps hv => ?_⟩
  obtain ⟨g, vts, pts, hg, -, h, -⟩ := Layout.layout_arranges hl hn ho'
  obtain ⟨size, hsize, hroom⟩ := hout.room c y args hc
  rw [hsize.eq_of_ne_void hargs, ← hps] at hroom
  refine ⟨g, hg, fun r d link ws m hr hws hrun hsp hmem => ?_⟩
  exact h.passes hv hr (hws.trans hps.symm) hroom hrun hsp hmem

/-! A call among the arguments of another one.
```text
fun f(a: integer): integer = a
fun main(): integer = f(f(1))
```
-/

namespace NestedCalls

def param : Param := ⟨node 2, "a", .atom (node 3) .integer⟩

def inner : Expr := .call (node 9) "f" [number 10 1]

def types : NodeTable Ty :=
  [2, 3, 4, 5, 7, 8, 9, 10].foldl (fun types i => types.insert (.ofNat i) .int) ∅

def program : Source.Program where
  defs := ⟨node 0,
    [.func (node 1) "f" [param] (.atom (node 4) .integer) (.name (node 5) "a"),
      .func (node 6) "main" [] (.atom (node 7) .integer) (.call (node 8) "f" [inner])]⟩
  tables := { types }

def machine : Machine := ⟨Memory.new 64, 48, 24, .ofSeed 0, none⟩

end NestedCalls

theorem arguments_meet_parameters_nested :
    ∃ l f g, NestedCalls.program.layout = .ok l ∧ l.frames[(node 6).id]? = some f ∧
      l.frames[(node 1).id]? = some g ∧ f.outgoing = 16 ∧
      ∀ d link w, Layout.Passes l f g [NestedCalls.param] link [w] NestedCalls.machine
        ((Routine.enter ⟨g, #[], ∅⟩ [link, w] d).after NestedCalls.machine) := by
  obtain ⟨l, hl, h⟩ := exists_ok_of_any (x := NestedCalls.program.layout)
    (f := fun l => l.frames[(node 6).id]?.any fun f : Frame => f.size = 24 ∧ f.outgoing = 16)
    (by decide +kernel)
  obtain ⟨f, hf, hout, hcalls⟩ := arguments_meet_parameters (p := NestedCalls.program)
    (by decide +kernel) hl (List.mem_of_getElem? (i := 5) rfl)
  obtain ⟨g, hg, hpass⟩ := hcalls (node 8) "f" [NestedCalls.inner]
    (List.mem_of_getElem? (i := 2) rfl) (by decide +kernel) [] (node 1) "f"
    [NestedCalls.param] _ _ (List.mem_of_getElem? (i := 1) rfl) rfl (by decide +kernel)
  have hf' : l.frames[(node 6).id]? = some f := hf
  rw [hf', Option.any_some, decide_eq_true_iff] at h
  refine ⟨l, f, g, hl, hf, hg, h.2, fun d link w => hpass _ d link [w] _ rfl rfl ?_ (by decide) ?_⟩
  · rw [h.1]
    decide
  · rw [h.2]
    decide

/-! A void argument takes no room in the outgoing area, but a word is stored for it. So the last
argument lands on the saved frame pointer of the caller, and `main` returns with a wrong one.
```text
fun f(n: integer): integer = n
fun main(): integer = f({}, 1)
```
-/

def voidArgument : Build Source.Program := do
  let n ← Builder.param "n" .int
  let f ← Builder.signature "f" [n] .int
  let main ← Builder.signature "main" [] .int
  let body ← Builder.name n.ref
  let mainBody ← Builder.call f [← Builder.block [], ← Builder.int 1]
  Builder.finish [Builder.func f body, Builder.func main mainBody]

theorem void_argument_overwrites_frame_pointer :
    ∃ p code image m, Builder.run voidArgument = .ok p ∧
      (p.ids.Nodup ∧ p.occurrences.all p.isScoped = true ∧ p.NamedApart ∧ p.leavesRegisters = true ∧
        p.occurrences.all p.isScalar = true ∧ p.occurrences.all p.isApplied = false) ∧
      p.compile "main" = .ok code ∧ Image.load code ⟨64, .ofSeed 0, none⟩ = .ok (image, m) ∧ m.fp = 56 ∧
      (image.run 8 m).1 = .value 0 ∧ (image.run 8 m).2.fp = 1 := by
  obtain ⟨p, code, image, m, hb, hp, hc, hl, h⟩ := exists_loaded_of_any voidArgument
    ⟨64, .ofSeed 0, none⟩
    (fun p => decide (p.ids.Nodup ∧ p.occurrences.all p.isScoped = true ∧ p.NamedApart ∧
      p.leavesRegisters = true ∧ p.occurrences.all p.isScalar = true ∧
      p.occurrences.all p.isApplied = false))
    (fun image m => (image.run 8 m).1.isValue 0 &&
      decide (m.fp = 56 ∧ (image.run 8 m).2.fp = 1)) (by decide +kernel)
  obtain ⟨ho, h⟩ := Bool.and_eq_true_iff.mp h
  obtain ⟨hbefore, hafter⟩ := of_decide_eq_true h
  exact ⟨p, code, image, m, hb, of_decide_eq_true hp, hc, hl, hbefore,
    Outcome.eq_value_of_isValue ho, hafter⟩

end BlockLang
