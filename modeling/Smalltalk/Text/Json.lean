import Smalltalk.Text.Quoted

/-! # JSON strings

A JSON string escapes the double quote, the backslash and the characters below U+0020, the latter by
a letter where JSON has one; every other character stands for itself. -/

namespace Smalltalk.Text

/-- How a character stands in a JSON string. -/
def jsonChar (c : Char) : Text :=
  match c with
  | '\x22' => ['\\', '\x22']
  | '\\' => ['\\', '\\']
  | '\x08' => ['\\', 'b']
  | '\x0c' => ['\\', 'f']
  | '\n' => ['\\', 'n']
  | '\r' => ['\\', 'r']
  | '\t' => ['\\', 't']
  | c =>
    if c.toNat < 0x20 then
      ['\\', 'u', '0', '0', Nat.digitChar (c.toNat / 16), Nat.digitChar (c.toNat % 16)]
    else [c]

/-- The text as a JSON string. -/
def jsonString (t : Text) : Text := ['\x22'] ++ t.flatMap jsonChar ++ ['\x22']

theorem le_toNat_of_mem_jsonChar {c d : Char} (h : d ∈ jsonChar c) : 0x20 ≤ d.toNat := by
  have hsmall : ∀ t : Text, (∀ e ∈ t, 0x20 ≤ e.toNat) → d ∈ t → 0x20 ≤ d.toNat := fun t ht => ht d
  have hdigit : ∀ n < 16, 0x20 ≤ (Nat.digitChar n).toNat := by decide
  unfold jsonChar at h
  split at h
  iterate 7 exact hsmall _ (forall_of_all (by decide)) h
  split at h
  · next hlow =>
    have hhigh := hdigit (c.toNat / 16) (by omega)
    have hrest := hdigit (c.toNat % 16) (by omega)
    rcases (List.mem_append (s := ['\\', 'u', '0', '0'])).mp h with h | h
    · exact hsmall _ (forall_of_all (by decide)) h
    · exact hsmall _ (List.forall_mem_cons.mpr ⟨hhigh, List.forall_mem_singleton.mpr hrest⟩) h
  · next hlow =>
    rw [List.mem_singleton.mp h]
    omega

/-- **A JSON string has no controls,** so no line end either. -/
theorem le_toNat_of_mem_jsonString {t : Text} {d : Char} (h : d ∈ t.jsonString) :
    0x20 ≤ d.toNat := by
  rw [jsonString, List.mem_append, List.mem_append, List.mem_flatMap] at h
  rcases h with (h | ⟨c, -, h⟩) | h
  · rw [List.mem_singleton.mp h]
    decide
  · exact le_toNat_of_mem_jsonChar h
  · rw [List.mem_singleton.mp h]
    decide

end Smalltalk.Text
