import SuffixLint.Proofs.Json.Structure
import SuffixLint.Proofs.Text.Lines
/-!
# Documents on one line

A document that is written without spaces stays on its line: controls are escaped inside strings,
and outside of them only punctuation, words and digits are written. So it may be followed by a
newline and another document.
-/

namespace SuffixLint.Json

open Decimal Text

/-- No control stands in a text. -/
def Printed (cs : List Char) : Prop :=
  ∀ c ∈ cs, 0x20 ≤ c.toNat

instance (cs : List Char) : Decidable (Printed cs) :=
  List.decidableBAll (fun c : Char => 0x20 ≤ c.toNat) cs

namespace Printed

variable {cs ds : List Char}

theorem cons {c : Char} (hc : 0x20 ≤ c.toNat) (h : Printed cs) : Printed (c :: cs) := by
  intro d hd
  rcases List.mem_cons.mp hd with rfl | hd
  · exact hc
  · exact h d hd

theorem append (hcs : Printed cs) (hds : Printed ds) : Printed (cs ++ ds) := by
  intro c hc
  rcases List.mem_append.mp hc with hc | hc
  · exact hcs c hc
  · exact hds c hc

/-- What is printed and not empty is fit for a line. -/
theorem fitsLine (h : Printed cs) (hne : cs ≠ []) : FitsLine cs where
  ne_nil := hne
  noNewline hmem := absurd (h '\n' hmem) (by decide)
  noReturn hmem := absurd (h '\r' hmem) (by decide)

end Printed

theorem printed_hexLetter {d : Nat} (h : d < 16) : 0x20 ≤ (hexLetter d).toNat := by
  have hall : ∀ e, e < 16 → 0x20 ≤ (hexLetter e).toNat := by decide
  exact hall d h

/-- A control is never written as itself. -/
theorem printed_escapeChar (c : Char) : Printed (escapeChar c) := by
  have hslash : 0x20 ≤ '\\'.toNat := by decide
  unfold escapeChar
  split
  -- seven characters have an escape of one letter
  iterate 7 exact .cons hslash (.cons (by decide) nofun)
  · split
    · rename_i hcontrol
      refine .cons hslash (.cons (by decide) (.cons (by decide) (.cons (by decide) ?_)))
      exact .cons (printed_hexLetter (by omega)) (.cons (printed_hexLetter (by omega)) nofun)
    · rename_i hplain
      exact .cons (Nat.le_of_not_lt hplain) nofun

theorem printed_writeString (s : String) : Printed (writeString s) := by
  have hquote : 0x20 ≤ '"'.toNat := by decide
  have hbody : Printed (s.toList.flatMap escapeChar) := by
    intro c hc
    obtain ⟨d, -, hcd⟩ := List.mem_flatMap.mp hc
    exact printed_escapeChar d c hcd
  exact (hbody.cons hquote).append (.cons hquote nofun)

theorem printed_digits (n : Nat) : Printed (digits n) := by
  intro c hc
  have hdigit := isDigit_of_mem_digits hc
  simp only [Char.isDigit, Bool.and_eq_true, decide_eq_true_eq] at hdigit
  have hzero : '0'.toNat ≤ c.toNat := hdigit.1
  exact Nat.le_trans (by decide) hzero

namespace Layout

theorem printed_lead (level : Nat) (first : Bool) : Printed (compact.lead level first) := by
  unfold lead
  split
  · exact nofun
  · exact .cons (by decide) nofun

theorem printed_close (level : Nat) (first : Bool) {bracket : Char} (h : 0x20 ≤ bracket.toNat) :
    Printed (compact.close level first bracket) := by
  unfold close
  split <;> exact .cons h nofun

theorem printed_renderItems {vs : List Json} {level : Nat}
    (h : ∀ v ∈ vs, Printed (compact.render (level + 1) v)) (first : Bool) :
    Printed (compact.renderItems level first vs) := by
  induction vs generalizing first with
  | nil => exact printed_close level first (by decide)
  | cons v vs ih =>
    have hvs := ih (fun w hw => h w (List.mem_cons_of_mem v hw)) false
    exact ((printed_lead level first).append (h v List.mem_cons_self)).append hvs

theorem printed_renderMembers {ms : List (String × Json)} {level : Nat}
    (h : ∀ m ∈ ms, Printed (compact.render (level + 1) m.2)) (first : Bool) :
    Printed (compact.renderMembers level first ms) := by
  induction ms generalizing first with
  | nil => exact printed_close level first (by decide)
  | cons m ms ih =>
    have hms := ih (fun n hn => h n (List.mem_cons_of_mem m hn)) false
    have hkey := (printed_lead level first).append (printed_writeString m.1)
    have hcolon : Printed (':' :: compact.behindColon) := .cons (by decide) nofun
    exact ((hkey.append hcolon).append (h m List.mem_cons_self)).append hms

/-- **No control stands in a document that is written on one line.** -/
theorem printed_render {depth : Nat} {v : Json} (h : Readable depth v) (level : Nat) :
    Printed (compact.render level v) := by
  induction h generalizing level with
  | null => exact (by decide : Printed ['n', 'u', 'l', 'l'])
  | bool b =>
    cases b with
    | true => exact (by decide : Printed ['t', 'r', 'u', 'e'])
    | false => exact (by decide : Printed ['f', 'a', 'l', 's', 'e'])
  | nat _ => exact printed_digits _
  | string s => exact printed_writeString s
  | array _ ih => exact .cons (by decide) (printed_renderItems (fun v hv => ih v hv _) true)
  | object _ ih => exact .cons (by decide) (printed_renderMembers (fun m hm => ih m hm _) true)

end Layout

/-- A document that is written on one line is fit for a line. -/
theorem fitsLine_write {depth : Nat} {v : Json} (h : Readable depth v) : FitsLine v.write := by
  obtain ⟨c, r, hv, -⟩ := Layout.compact.exists_render_eq_cons 0 v
  rw [write_eq_render 0]
  refine (Layout.printed_render h 0).fitsLine ?_
  rw [hv]
  exact List.cons_ne_nil c r

end SuffixLint.Json
