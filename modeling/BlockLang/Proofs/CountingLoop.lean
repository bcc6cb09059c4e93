import BlockLang.Proofs.ConsoleText
import BlockLang.Proofs.StructuredCompilation
import BlockLang.Source.Sample

namespace BlockLang

open Source Builder

/-- Prints all values of a counter.
```text
fun main(): integer = { for i = low, high, step: print_int(i); i } where var i: integer
```
-/
def countingProgram (low high step : Word) : Build Source.Program := do
  let main ← signature Sample.entry [] .int
  let i ← var "i" .int
  let body ← block [
    ← forLoop (← name i.ref) (← int low) (← int high) (← int step)
      (← callUnbound "print_int" [← name i.ref]),
    ← name i.ref]
  let body ← whereDefs body [i]
  finish [func main body]

def progression (low step : Int) (count : Nat) : List String :=
  (List.range count).map fun (k : Nat) => toString (low + k * step) ++ "\n"

lemma progression_succ (low step : Int) (count : Nat) :
    progression low step (count + 1) =
      (toString low ++ "\n") :: progression (low + step) step count := by
  simp only [progression, List.range_succ_eq_map, List.map_cons, List.map_map]
  congr 1
  · simp
  · refine List.map_congr_left fun k _ => ?_
    have hk : low + (k + 1 : Nat) * step = low + step + k * step := by
      push_cast
      rw [Int.add_mul]
      omega
    simp only [Function.comp_apply, Nat.succ_eq_add_one, hk]

def countBelow (low high step : Int) : Nat := (-((low - high) / step)).toNat

lemma lt_countBelow {low high step : Int} (hstep : 0 < step) (k : Nat) :
    low + k * step < high ↔ k < countBelow low high step := by
  rw [countBelow, Int.lt_toNat]
  have h := Int.ediv_lt_iff_lt_mul hstep (a := low - high) (b := -(k : Int))
  rw [Int.neg_mul] at h
  omega

namespace Source.World

lemma print_of_accepts {w : World} {line : String} (h : Console.Accepts w.console [line ++ "\n"]) :
    print line w = .done () { w with console := w.console.map (·.put (line ++ "\n")) } := by
  obtain ⟨cells, console⟩ := w
  cases console with
  | none => rfl
  | some c => simp only [print, Console.write_of_takes (h c rfl), Option.map_some]

variable (d : NodeId) (high step : Word)

def counting : Action World Bool := do
  return decide ((← get d).toInt < high.toInt)

def count : Action World Unit := do
  print (toString (← get d).toInt)
  set d (.ofInt ((← get d).toInt + step.toInt))

variable {d high step} {w : World}

lemma counting_eq : counting d high w = .done (decide ((w.cells d).toInt < high.toInt)) w := rfl

lemma count_done (step : Word) (h : Console.Accepts w.console [toString (w.cells d).toInt ++ "\n"]) :
    ∃ w', count d step w = .done () w' ∧
      w'.cells d = .ofInt ((w.cells d).toInt + step.toInt) ∧
      w'.console = w.console.map (·.put (toString (w.cells d).toInt ++ "\n")) := by
  refine ⟨_, Action.bind_done (x := get d) rfl |>.trans
    ((Action.bind_done (print_of_accepts h)).trans rfl), ?_, rfl⟩
  simp

lemma loop_counts {n rounds : Nat} (hr : n < rounds)
    (hn : ∀ k : Nat, (w.cells d).toInt + k * step.toInt < high.toInt ↔ k < n)
    (hlow : 0 ≤ step.toInt)
    (hmax : (w.cells d).toInt + n * step.toInt < wordBound)
    (h : Console.Accepts w.console (progression (w.cells d).toInt step.toInt n)) :
    ∃ w', Action.loop (counting d high) (count d step) rounds w = .done () w' ∧
      (w'.cells d).toInt = (w.cells d).toInt + n * step.toInt ∧
      w'.console = w.console.map (·.putAll (progression (w.cells d).toInt step.toInt n)) := by
  -- the rounds that are left are counted down while the world changes
  induction n generalizing w rounds with
  | zero =>
    obtain ⟨rounds, rfl⟩ := Nat.exists_eq_succ_of_ne_zero (Nat.ne_of_gt hr)
    have hstop : decide ((w.cells d).toInt < high.toInt) = false := by
      have h0 := (hn 0).not.mpr (Nat.lt_irrefl 0)
      rw [decide_eq_false_iff_not]
      omega
    refine ⟨w, ?_, by omega, by simp [progression, Console.putAll]⟩
    rw [Action.loop]
    exact (Action.bind_done (counting_eq.trans (by rw [hstop]))).trans rfl
  | succ n ih =>
    obtain ⟨rounds, rfl⟩ := Nat.exists_eq_succ_of_ne_zero (Nat.ne_of_gt (Nat.zero_lt_of_lt hr))
    have hgo : decide ((w.cells d).toInt < high.toInt) = true := by
      have h0 := (hn 0).mpr (Nat.succ_pos n)
      rw [decide_eq_true_iff]
      omega
    rw [progression_succ] at h
    obtain ⟨hfirst, hothers⟩ := h.cons
    obtain ⟨w₁, hw₁, hcell, hconsole⟩ := count_done step hfirst
    have hrest : 0 ≤ (n : Int) * step.toInt := Int.mul_nonneg (Int.natCast_nonneg n) hlow
    have hsucc : ((n + 1 : Nat) : Int) * step.toInt = n * step.toInt + step.toInt := by
      push_cast
      rw [Int.add_mul, Int.one_mul]
    have hmin := (w.cells d).le_toInt
    have hnext : (w₁.cells d).toInt = (w.cells d).toInt + step.toInt := by
      rw [hcell]
      exact Int64.toInt_ofInt_of_le (by omega) (Int.lt_of_le_of_lt (by omega) hmax)
    rw [← hconsole, ← hnext] at hothers
    have hbelow : ∀ k : Nat, (w₁.cells d).toInt + k * step.toInt < high.toInt ↔ k < n := by
      intro k
      rw [← Nat.succ_lt_succ_iff, ← hn (k + 1), hnext]
      push_cast
      rw [Int.add_mul]
      omega
    obtain ⟨w₂, hw₂, hlast, htext⟩ := ih (Nat.lt_of_succ_lt_succ hr) hbelow (by omega) hothers
    refine ⟨w₂, ?_, by omega, ?_⟩
    · rw [Action.loop]
      refine (Action.bind_done (counting_eq.trans (by rw [hgo]))).trans ?_
      exact (Action.bind_done hw₁).trans hw₂
    · rw [htext, hconsole, hnext, Option.map_map, progression_succ]
      rfl

end Source.World

namespace Counting

def counter (i : Nat) : Expr := .name (node i) "i"

def result : TypeExpr := .atom (node 0) .integer

def loop (low high step : Word) : Expr :=
  .forLoop (node 10) (counter 4) (number 5 low) (number 6 high) (number 7 step)
    (.call (node 9) "print_int" [counter 8])

def body (low high step : Word) : Expr :=
  .whereDefs (node 14) (.block (node 12) [loop low high step, counter 11]) (node 13)
    [.var (node 3) "i" (.atom (node 2) .integer)]

def types : NodeTable Ty :=
  [(0, Ty.int), (1, .function [] .int), (2, .int), (3, .int), (4, .int), (5, .int), (6, .int),
    (7, .int), (8, .int), (9, .void), (10, .void), (11, .int), (12, .int), (14, .int)].foldl
    (fun t (e : Nat × Ty) => t.insert (.ofNat e.1) e.2) ∅

def bindings : NodeTable NodeId := [4, 8, 11].foldl (fun t i => t.insert (.ofNat i) (.ofNat 3)) ∅

def program (low high step : Word) : Source.Program :=
  ⟨⟨node 15, [.func (node 1) "main" [] result (body low high step)]⟩, ⟨types, bindings⟩⟩

variable (low high step : Word)

lemma run_countingProgram :
    Builder.run (countingProgram low high step) = .ok (program low high step) := rfl

lemma structured : (program low high step).Structured (node 1) result (body low high step) where
  unique := by
    change (program 0 0 0).ids.Nodup
    decide
  main_mem := .head _
  globals d hd := .inl (List.mem_singleton.mp hd)
  names d hd d' hd' hv _ _ := by
    obtain rfl := List.mem_singleton.mp hd
    cases hv
  registers d hd hv := by
    obtain rfl := List.mem_singleton.mp hd
    cases hv
  typed := rfl
  room := by
    change (body 0 0 0).ids.length + (body 0 0 0).voidOperands ⟨types, bindings⟩ < 4294967296
    decide +kernel

lemma size_frame {layout : Layout} {frame : Frame} (hl : (program low high step).layout = .ok layout)
    (hf : layout.frames[(node 1).id]? = some frame) : frame.size = 32 := by
  have h : ((program low high step).layout.toOption.bind (·.frames[(node 1).id]?)).map Frame.size =
      some 32 := rfl
  rw [hl] at h
  change (layout.frames[(node 1).id]?).map Frame.size = some 32 at h
  rw [hf] at h
  exact Option.some.inj h

lemma denote_body (rounds : Nat) :
    (body low high step).denote ⟨types, bindings⟩ rounds = (do
      World.set (.ofNat 3) low
      Action.loop (World.counting (.ofNat 3) high) (World.count (.ofNat 3) step) rounds
      World.get (.ofNat 3)) := by
  have hbound : ∀ i ∈ [4, 8, 11], bindings[(node i).id]? = some (.ofNat 3) := by decide +kernel
  have hcall (w : Word) : World.call "print_int" [w] = (do World.print (toString w.toInt); return 0) :=
    rfl
  simp only [body, loop, counter, number, Expr.denote, Expr.denoteBlock, Expr.denoteAll, Tables.cell?,
    hbound 4 (by decide), hbound 8 (by decide), hbound 11 (by decide), hcall, World.counting,
    World.count, bind_assoc, pure_bind]

variable {low high step}

lemma lt_of_room (hstep : 1 ≤ step.toInt)
    (hroom : high.toInt ≤ low.toInt ∨ high.toInt - 1 + step.toInt < wordBound) :
    low.toInt + countBelow low.toInt high.toInt step.toInt * step.toInt < wordBound := by
  have hbound := wordBound_eq
  have hlow := low.toInt_lt
  have hbelow (k : Nat) : low.toInt + k * step.toInt < high.toInt ↔
      k < countBelow low.toInt high.toInt step.toInt := lt_countBelow (by omega) k
  generalize countBelow low.toInt high.toInt step.toInt = n at *
  cases n with
  | zero => omega
  | succ n =>
    have hfirst := (hbelow 0).mpr (Nat.succ_pos n)
    have hlast := (hbelow n).mpr (Nat.lt_succ_self n)
    push_cast
    rw [Int.add_mul]
    omega

lemma evaluate_done (hstep : 1 ≤ step.toInt)
    (hroom : high.toInt ≤ low.toInt ∨ high.toInt - 1 + step.toInt < wordBound)
    {console : Option Console} {n : Nat} (hn : n = countBelow low.toInt high.toInt step.toInt)
    (h : Console.Accepts console (progression low.toInt step.toInt n)) :
    ∃ w s, (program low high step).evaluate (body low high step) console (n + 1) = .done w s ∧
      w.toInt = low.toInt + n * step.toInt ∧
      s.console = console.map (·.putAll (progression low.toInt step.toInt n)) := by
  subst hn
  obtain ⟨s, hs, hlast, htext⟩ := World.loop_counts (d := .ofNat 3)
    (w := ⟨fun i => if i = .ofNat 3 then low else 0, console⟩) (Nat.lt_succ_self _)
    (lt_countBelow (by omega)) (by omega) (lt_of_room hstep hroom) h
  refine ⟨_, s, ?_, hlast, htext⟩
  rw [Program.evaluate]
  change (body low high step).denote ⟨types, bindings⟩ _ _ = _
  rw [denote_body]
  exact (Action.bind_done (x := World.set (.ofNat 3) low) rfl).trans ((Action.bind_done hs).trans rfl)

end Counting

lemma Source.Program.Structured.runs {p : Source.Program} {main : Node} {result : TypeExpr}
    {body : Expr} (h : p.Structured main result body) :
    ∃ code layout frame, p.layout = .ok layout ∧ layout.frames[main.id]? = some frame ∧
      p.compile "main" = .ok code ∧
      ∀ setup : Setup, p.staticSize + frame.size + wordSize ≤ setup.memorySize →
        setup.memorySize < wordBound →
        ∃ image m, Image.load code setup = .ok (image, m) ∧
          ∀ rounds, RunsAs (fun fuel => image.run fuel m) rounds
            (p.evaluate body setup.console rounds) := by
  obtain ⟨before, after, hd, hb, ha⟩ := h.split
  obtain ⟨layout, frame, hl, L⟩ := h.mainLayout
  obtain ⟨r, st, st', k, C⟩ := L.mainCode h hd hb ha
  refine ⟨_, layout, frame, hl, L.frame_eq, compile_eq hl C.lower, fun setup hroom hsmall => ?_⟩
  rw [staticSize_eq hd hb ha] at hroom
  have hword : wordSize = 8 := rfl
  have F : Fits p main result body layout frame before after setup.memorySize :=
    ⟨h, L, hd, hb, ha, by omega, hsmall⟩
  obtain ⟨h0, h0', hs, -⟩ := F.frame_size
  exact ⟨_, _, C.load C.lower (by omega), F.runsAs C setup.generator setup.console⟩

/-- A loop that counts prints the numbers of the progression that are below its bound, and leaves its
counter at the first one that is not. -/
theorem counting_loop_prints_progression (low high step : Word) (hstep : 1 ≤ step.toInt)
    (hroom : high.toInt ≤ low.toInt ∨ high.toInt - 1 + step.toInt < wordBound) :
    ∃ p code, Builder.run (countingProgram low high step) = .ok p ∧
      p.compile Sample.entry = .ok code ∧
      ∃ n : Nat, n = (-((low.toInt - high.toInt) / step.toInt)).toNat ∧
        (∀ k : Nat, low.toInt + k * step.toInt < high.toInt ↔ k < n) ∧
        ∀ setup : Setup, 48 ≤ setup.memorySize → setup.memorySize < wordBound →
          Console.Accepts setup.console (progression low.toInt step.toInt n) →
          ∃ image m fuel w m', Image.load code setup = .ok (image, m) ∧
            image.run fuel m = (.value w, m') ∧ w.toInt = low.toInt + n * step.toInt ∧
            m'.console = setup.console.map (·.putAll (progression low.toInt step.toInt n)) := by
  obtain ⟨code, layout, frame, hl, hf, hc, hruns⟩ := (Counting.structured low high step).runs
  refine ⟨_, code, Counting.run_countingProgram low high step, hc, _, rfl,
    lt_countBelow (by omega), fun setup hmemory hsmall haccepts => ?_⟩
  have hstatic : (Counting.program low high step).staticSize = 8 := rfl
  have hword : wordSize = 8 := rfl
  have hsize := Counting.size_frame low high step hl hf
  obtain ⟨image, m, hload, hrun⟩ := hruns setup (by omega) hsmall
  obtain ⟨w, s, he, hw, hs⟩ := Counting.evaluate_done hstep hroom rfl haccepts
  have hr := hrun (countBelow low.toInt high.toInt step.toInt + 1)
  rw [he] at hr
  obtain ⟨fuel, m', hvalue, hconsole⟩ := hr
  exact ⟨image, m, fuel, w, m', hload, hvalue, hw, hconsole.trans hs⟩

theorem counting_loop_prints_progression_three :
    ∃ p code image m fuel m', Builder.run (countingProgram (-2) 5 3) = .ok p ∧
      p.compile "main" = .ok code ∧
      Image.load code { memorySize := 48, generator := .ofSeed 0, console := some (.limited 7) } =
        .ok (image, m) ∧
      image.run fuel m = (.value 7, m') ∧
      m'.console.map (·.written) = some "-2\n1\n4\n".toUTF8.data := by
  obtain ⟨p, code, hp, hc, n, hn, -, h⟩ := counting_loop_prints_progression (-2) 5 3
    (by decide) (by decide)
  have hthree : n = 3 := hn.trans (by decide)
  subst hthree
  obtain ⟨image, m, fuel, w, m', hload, hrun, hw, hconsole⟩ :=
    h { memorySize := 48, generator := .ofSeed 0, console := some (.limited 7) } (by decide)
      (by decide) fun c hc => by cases hc; exact ⟨rfl, rfl, rfl, trivial⟩
  obtain rfl : w = 7 := Int64.toInt_inj.mp (hw.trans (by decide))
  refine ⟨p, code, image, m, fuel, m', hp, hc, hload, hrun, ?_⟩
  have htext : String.join (progression (Int64.toInt (-2)) (Int64.toInt 3) 3) = "-2\n1\n4\n" := by
    decide
  rw [hconsole, Option.map_some, Option.map_some, Console.written_putAll, htext]
  exact congrArg some (Array.empty_append ..)

end BlockLang
