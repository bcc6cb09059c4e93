import BlockLang.Proofs.CallShape
import BlockLang.Proofs.FrameCells

namespace BlockLang

open Source Code Lowering

def Frame.HasCell (f : Frame) (offset : Int) : Prop :=
  (-f.locals ≤ offset ∧ offset + 8 ≤ 0) ∨ (8 ≤ offset ∧ offset + 8 ≤ f.params)

section Lexical

variable (At : Frame → List NodeId → Prop) (path : List NodeId)

inductive Cell : Exp → Prop where
  | global {l : Label} (hf : l ≠ .framePointer) (hs : l ≠ .stackPointer) : Cell (.name l)
  | frame {g : Frame} {outer : List NodeId} {offset : Int} (hg : At g outer) (hs : outer <:+ path)
    (hc : g.HasCell offset) : Cell ((Exp.staticLink (path.length - outer.length)).offset offset)

/-- A call from the function with a given path and frame. The callee keeps its caller's frame pointer
`n` bytes below its own, and the arguments fit into the outgoing area of the caller. -/
structure CallSite (f : Frame) (n : Int) (l : Label) (args : List Exp) (g : Frame)
    (outer : List NodeId) : Prop where
  callee : ∃ i, At g (i :: outer)
  visible : outer <:+ path
  label : l = g.label
  oldFp : n = g.oldFp
  link : ∃ ts : List Temp, args =
    (if outer = [] then .const 0 else .staticLink (path.length - outer.length)) :: ts.map .temp
  params : g.params = 8 * args.length
  room : 8 * args.length ≤ f.outgoing

end Lexical

namespace Source.Program

variable {p : Program} {l : Layout} {f g : Frame} {path outer : List NodeId}

def FrameAt (p : Program) (l : Layout) (f : Frame) (path : List NodeId) : Prop :=
  ∃ outer n x ps t b, path = n.id :: outer ∧
    (⟨outer, .defn (.func n x ps t b)⟩ : Occurrence) ∈ p.occurrences ∧ l.frames[n.id]? = some f

lemma FrameAt.eq_cons (h : p.FrameAt l f path) : ∃ i outer, path = i :: outer := by
  obtain ⟨outer, n, -, -, -, -, rfl, -⟩ := h
  exact ⟨n.id, outer, rfl⟩

lemma FrameAt.frame_unique (hf : p.FrameAt l f path) (hg : p.FrameAt l g path) : f = g := by
  obtain ⟨outer, n, _, _, _, _, rfl, -, hf⟩ := hf
  obtain ⟨outer', n', _, _, _, _, he, -, hg⟩ := hg
  rw [← (List.cons.inj he).1] at hg
  exact Option.some.inj (hf.symm.trans hg)

lemma Regular.eq_of_label (h : p.Regular) (hl : p.layout = .ok l) {path' : List NodeId}
    (hf : p.FrameAt l f path) (hg : p.FrameAt l g path') (he : f.label = g.label) :
    f = g ∧ path = path' := by
  obtain ⟨outer, n, x, ps, t, b, rfl, ho, hf⟩ := hf
  obtain ⟨outer', n', x', ps', t', b', rfl, ho', hg⟩ := hg
  have hid := Layout.label_inj hl h.unique h.named.distinct hf hg he
  cases Program.eq_of_id h.unique ho ho' hid
  exact ⟨Option.some.inj (hf.symm.trans hg), rfl⟩

lemma Regular.not_isArray (h : p.Regular) {n : Node} {x : String} {ps : List Param} {t : TypeExpr}
    {b : Expr} (ho : ⟨outer, .defn (.func n x ps t b)⟩ ∈ p.occurrences) {e : Expr}
    (he : .expr e ∈ b.items) : p.tables.types[e.node.id]?.any Ty.isArray = false := by
  have hs := h.isScalar (mem_occurrences_body ho
    (Expr.mem_occurrences he (List.mem_singleton_self _)))
  unfold Program.isScalar at hs
  split at hs <;> simp_all

lemma Regular.cell_of_declares (h : p.Regular) (hl : p.layout = .ok l) {o : Occurrence} {d : NodeId}
    (ho : o ∈ p.occurrences) (hd : o.declares path d = true) {access : Access}
    (ha : l.accesses[d]? = some access) :
    Cell (p.FrameAt l) path (addressOf path.length access) := by
  obtain ⟨outer, item⟩ := o
  cases item with
  | expr e => cases hd
  | defn d' =>
    cases d' with
    | type n x t => cases hd
    | var n x t =>
      simp only [Occurrence.declares, Bool.and_eq_true, beq_iff_eq,
        List.isSuffixOf_iff_suffix] at hd
      obtain ⟨rfl, hsuf⟩ := hd
      cases outer with
      | nil =>
        obtain ⟨type, -, hglobal, -⟩ := Layout.layout_var hl h.unique ho
        obtain rfl := Option.some.inj (ha.symm.trans (hglobal rfl))
        have hr := List.all_eq_true.mp h.registers _ (Program.mem_definitions ho)
        simp only [Bool.and_eq_true, bne_iff_ne] at hr
        exact .global hr.1 hr.2
      | cons i outer =>
        obtain ⟨n', x', ps, t', b, rfl, hf, hitem⟩ := Program.mem_body ho
        obtain ⟨g, hg, hframed⟩ := h.framed hl hf
        obtain ⟨offset, hacc, hlo, hhi⟩ := hframed.var n x t hitem
        obtain rfl := Option.some.inj (ha.symm.trans hacc)
        have hcell : Cell (p.FrameAt l) path
            ((Exp.staticLink (path.length - (n'.id :: outer).length)).offset offset) :=
          .frame ⟨outer, n', x', ps, t', b, rfl, hf, hg⟩ hsuf (.inl ⟨hlo, hhi⟩)
        rwa [List.length_cons, ← hframed.level] at hcell
    | func n x ps t b =>
      simp only [Occurrence.declares, Bool.and_eq_true, List.any_eq_true, beq_iff_eq,
        List.isSuffixOf_iff_suffix] at hd
      obtain ⟨⟨q, hq, rfl⟩, hsuf⟩ := hd
      obtain ⟨g, hg, hframed⟩ := h.framed hl ho
      obtain ⟨offset, hacc, hlo, hhi⟩ := hframed.param q hq
      obtain rfl := Option.some.inj (ha.symm.trans hacc)
      have hcell : Cell (p.FrameAt l) path
          ((Exp.staticLink (path.length - (n.id :: outer).length)).offset offset) :=
        .frame ⟨outer, n, x, ps, t, b, rfl, ho, hg⟩ hsuf (.inr ⟨hlo, hhi⟩)
      rwa [List.length_cons, ← hframed.level] at hcell

lemma Regular.invokes (h : p.Regular) (hl : p.layout = .ok l) {n m : Node} {x y : String}
    {ps : List Param} {t : TypeExpr} {b : Expr} {args : List Expr}
    (ho : ⟨outer, .defn (.func n x ps t b)⟩ ∈ p.occurrences) (hf : l.frames[n.id]? = some f)
    (hm : .expr (.call m y args) ∈ b.items) {i : NodeId} (hb : p.tables.bindings[m.id]? = some i)
    (hg : l.frames[i]? = some g) {ts : List Temp} (hts : ts.length = args.length) :
    ∃ around, CallSite (p.FrameAt l) (n.id :: outer) f g.oldFp g.label
      (linkOf f.level g :: ts.map .temp) g around := by
  have hcall : (⟨n.id :: outer, .expr (.call m y args)⟩ : Occurrence) ∈ p.occurrences :=
    mem_occurrences_body ho (Expr.mem_occurrences hm (List.mem_singleton_self _))
  have hscoped := List.all_eq_true.mp h.visible _ hcall
  simp only [isScoped, hb, Option.all_some, List.any_eq_true] at hscoped
  obtain ⟨⟨around, item⟩, ho', hoff⟩ := hscoped
  cases item with
  | expr e => cases hoff
  | defn d' =>
    cases d' with
    | type n' z t' => cases hoff
    | var n' z t' => cases hoff
    | func n' z ps' t' b' =>
      simp only [Occurrence.offers, Bool.and_eq_true, beq_iff_eq,
        List.isSuffixOf_iff_suffix] at hoff
      obtain ⟨rfl, hsuf⟩ := hoff
      obtain ⟨f', hf', hframed⟩ := h.framed hl ho
      obtain ⟨g', hg', hframed'⟩ := h.framed hl ho'
      obtain rfl := Option.some.inj (hf.symm.trans hf')
      obtain rfl := Option.some.inj (hg.symm.trans hg')
      have happlied := List.all_eq_true.mp h.applied _ hcall
      simp only [isApplied, hb, Option.all_some, Bool.and_eq_true, List.all_eq_true, bne_iff_ne] at happlied
      have hcount : ps'.length = args.length := by
        have hthis := happlied.2 _ ho'
        simpa using hthis
      obtain ⟨size, hsize, hroom⟩ := hframed.call m y args hm
      have hwords := hsize.eq_of_ne_void happlied.1
      refine ⟨around, ⟨n'.id, around, n', z, ps', t', b', rfl, ho', hg⟩, hsuf, rfl, rfl,
        ⟨ts, ?_⟩, ?_, ?_⟩
      · rw [linkOf, hframed'.level, hframed.level]
        simp
      · rw [hframed'.params, hcount, List.length_cons, List.length_map, hts]
        push_cast
        omega
      · rw [List.length_cons, List.length_map, hts]
        push_cast
        omega

lemma Regular.not_isIndex (h : p.Regular) : ∀ o ∈ p.occurrences, o.item.isIndex = false := by
  rintro ⟨outer, item⟩ ho
  have hs := h.isScalar ho
  cases hi : item.isIndex with
  | false => rfl
  | true =>
    match item with
    | .expr (.binary n .index x y) => cases hs
    | .expr (.binary n .assign x y) => cases hi

lemma Regular.confined (h : p.Regular) (hl : p.layout = .ok l) {n : Node} {x : String} {ps : List Param}
    {t : TypeExpr} {b : Expr} (ho : ⟨outer, .defn (.func n x ps t b)⟩ ∈ p.occurrences)
    (hf : l.frames[n.id]? = some f) :
    Confined (p.scope l) f.level (Cell (p.FrameAt l) (n.id :: outer))
      (fun m label args => ∃ g around, CallSite (p.FrameAt l) (n.id :: outer) f m label args g around)
      b.items := by
  obtain ⟨f', hf', hframed⟩ := h.framed hl ho
  obtain rfl := Option.some.inj (hf.symm.trans hf')
  have hpart : ∀ e, .expr e ∈ b.items → (⟨n.id :: outer, .expr e⟩ : Occurrence) ∈ p.occurrences :=
    fun e he => mem_occurrences_body ho (Expr.mem_occurrences he (List.mem_singleton_self _))
  refine ⟨fun i hi => ?_, fun e he type ht => ?_, fun m y hm st st' a hr => ?_,
    fun m y args hm i g hb hg ts hts => ?_⟩
  · cases i with
    | expr e => exact h.not_isIndex _ (hpart e hi)
    | defn d => rfl
  · have hs := h.not_isArray ho he
    rwa [show p.tables.types[e.node.id]? = some type from ht] at hs
  · have hs := List.all_eq_true.mp h.visible _ (hpart _ hm)
    simp only [isScoped, Option.any_eq_true, List.any_eq_true] at hs
    obtain ⟨d, hd, o, hmem, hdecl⟩ := hs
    obtain ⟨d', access, type, hd', ha, -, ht, he, -⟩ := expr_name_ok.mp hr
    obtain rfl := Option.some.inj (hd.symm.trans hd')
    have hcell := h.cell_of_declares hl hmem hdecl ha
    have htype := h.not_isArray ho hm
    rw [show p.tables.types[(Expr.name m y).node.id]? = some type from ht] at htype
    rw [variableValue_of_not_isArray htype] at he
    rw [List.length_cons, ← hframed.level] at hcell
    rwa [Exp.mem.inj (Fragment.value.inj he)]
  · obtain ⟨around, hsite⟩ := h.invokes hl ho hf hm hb hg hts
    exact ⟨g, around, hsite⟩

end Source.Program

end BlockLang
