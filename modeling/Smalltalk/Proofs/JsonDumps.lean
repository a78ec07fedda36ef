import Smalltalk.Dump
import Smalltalk.Script
import Smalltalk.Proofs.JsonValues

/-! # JSON output reads back

A scan in print is the text of a JSON value, and so it is one line that reads back as this value:
the name of the source, the kinds and values of the tokens in order, and the offset where the scan
stopped. A symbol is written by its name as a JSON string, which reads back as the name.

* `Token.document`, `Scan.document`: tokens and scans as JSON values.
* `Scan.json_eq`: a scan in print is the text of its value.
* `json_reads_back`: what is written is read back. -/

namespace Smalltalk

/-- A token as a JSON value: its kind and its value. -/
def Token.document (t : Token) : Json :=
  .object [("t".toList, .string t.kind.name), ("v".toList, .string t.value)]

/-- **A scan as a JSON value,** with the name of its source. -/
def Scan.document (s : Scan) (name : Text) : Json :=
  .object [("file".toList, .string name), ("tokens".toList, .array (s.tokens.map Token.document)),
    ("end".toList, .number s.stop 0)]

theorem Json.compact_ofNat (n : Nat) : (Json.number n 0).compact = Text.ofNat n := by
  rw [compact_number, integer, if_neg (by omega), if_pos rfl, List.nil_append, List.append_nil,
    Int.natAbs_natCast]

theorem Token.json_eq (t : Token) : t.json = t.document.compact := by
  unfold json
  rw [document, Json.compact_object]
  simp only [Json.compactMember, Json.compact_string, List.map_cons, List.map_nil,
    List.intercalate_cons_cons, List.intercalate_singleton, List.append_assoc]
  rfl

/-- A scan in print is the text of its value. -/
theorem Scan.json_eq (s : Scan) (name : Text) :
    s.json name = (s.document name).compact ++ ['\n'] := by
  have hitems : s.tokens.map Token.json = (s.tokens.map Token.document).map Json.compact := by
    rw [List.map_map]
    exact List.map_congr_left fun t _ => t.json_eq
  unfold json
  rw [hitems, document, Json.compact_object]
  simp only [Json.compactMember, Json.compact_string, Json.compact_array, Json.compact_ofNat,
    List.map_cons, List.map_nil, List.intercalate_cons_cons, List.intercalate_singleton,
    List.append_assoc, List.cons_append]
  rfl

/-- **JSON output reads back.** A scan in print is one line without controls, and the value of that
line has the name of the source, the kind and value of each token in order and the end of the scan.
The name of a symbol stands in its script as one JSON string, from its opening quote up to the
closing one, and is what that string stands for. -/
theorem json_reads_back :
    (∀ (name : Text) (s : Scan), ∃ line, s.json name = line ++ ['\n'] ∧
      (∀ c ∈ line, 0x20 ≤ c.toNat) ∧ Json.read? line = some (s.document name)) ∧
    ∀ v : Text, ∃ body,
      Script.ofToken ⟨.symbol, v⟩ = .ok ("Symbol.for(".toList ++ '\x22' :: body ++ [')']) ∧
      Json.string? body = some (v, []) ∧ Json.read? ('\x22' :: body) = some (.string v) := by
  refine ⟨fun name s => ⟨(s.document name).compact, s.json_eq name,
    Json.le_toNat_of_mem_compact _, Json.read?_compact _⟩, fun v => ?_⟩
  have hliteral : v.jsonString = '\x22' :: (v.flatMap Text.jsonChar ++ ['\x22']) := by
    simp [Text.jsonString]
  have hread := Json.read?_compact (.string v)
  rw [Json.compact_string, hliteral] at hread
  refine ⟨v.flatMap Text.jsonChar ++ ['\x22'], ?_, Json.string?_append v [], hread⟩
  rw [← hliteral]
  rfl

end Smalltalk
