import BlockLang.Machine.Basic
import Mathlib.Tactic.Common

namespace BlockLang

namespace Console

def put (c : Console) (text : String) : Console :=
  { c with written := c.written ++ text.toUTF8.data, writes := text.toUTF8.data :: c.writes }

def putAll (c : Console) (texts : List String) : Console := texts.foldl put c

def Takes (c : Console) : List String → Prop
  | [] => True
  | text :: texts => c.refusal (text.toUTF8.data :: c.writes) = none ∧ (c.put text).Takes texts

def Accepts (console : Option Console) (texts : List String) : Prop :=
  ∀ c, console = some c → c.Takes texts

def Refuses (console : Option Console) (reason : String) : Prop :=
  ∃ c writes taken, console = some c ∧ c.refusal writes = some (taken, reason)

variable {c : Console} {text reason : String} {texts : List String}

lemma write_of_takes (h : c.Takes (text :: texts)) : c.write text.toUTF8.data = (none, c.put text) := by
  rw [write, h.1, put]

lemma written_putAll (c : Console) (texts : List String) :
    (c.putAll texts).written = c.written ++ (String.join texts).toUTF8.data := by
  induction texts generalizing c with
  | nil => simp [putAll]
  | cons text texts ih =>
    have hrest := ih (c.put text)
    simp only [putAll, List.foldl_cons] at hrest ⊢
    rw [hrest, put, String.join_cons, String.toUTF8_eq_toByteArray, String.toUTF8_eq_toByteArray,
      String.toUTF8_eq_toByteArray, String.toByteArray_append, ByteArray.data_append,
      Array.append_assoc]

lemma Accepts.cons {console : Option Console} (h : Accepts console (text :: texts)) :
    Accepts console [text] ∧ Accepts (console.map (·.put text)) texts := by
  refine ⟨fun c hc => ⟨(h c hc).1, trivial⟩, fun c hc => ?_⟩
  obtain ⟨before, hbefore, rfl⟩ := Option.map_eq_some_iff.mp hc
  exact (h before hbefore).2

lemma Refuses.of_write {bytes : Array UInt8} (h : Refuses (some (c.write bytes).2) reason) :
    Refuses (some c) reason := by
  have hrefusal : (c.write bytes).2.refusal = c.refusal := by
    unfold write
    split <;> rfl
  obtain ⟨c', writes, taken, hc, hr⟩ := h
  obtain rfl := Option.some.inj hc
  exact ⟨c, writes, taken, rfl, hrefusal ▸ hr⟩

lemma refuses_of_write {bytes : Array UInt8} (h : (c.write bytes).1 = some reason) :
    Refuses (some c) reason := by
  unfold write at h
  split at h
  · cases h
  · rename_i taken reason' hr
    cases h
    exact ⟨c, _, taken, rfl, hr⟩

theorem eq_full_of_refuses_limited {limit : Nat} (h : Refuses (some (limited limit)) reason) :
    reason = full := by
  obtain ⟨c, writes, taken, hc, hr⟩ := h
  obtain rfl := Option.some.inj hc
  cases writes with
  | nil => cases hr
  | cons bytes earlier =>
    simp only [limited] at hr
    split at hr
    · cases hr
    · cases hr
      rfl

end Console

lemma Machine.print_of_accepts {m : Machine} {line : String}
    (h : Console.Accepts m.console [line ++ "\n"]) :
    print line m = .ok () { m with console := m.console.map (·.put (line ++ "\n")) } := by
  obtain ⟨memory, fp, sp, generator, console⟩ := m
  cases console with
  | none => rfl
  | some c => simp only [print, Console.write_of_takes (h c rfl), Option.map_some]

end BlockLang
