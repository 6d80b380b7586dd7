import TabletopDice.CommandLine

/-!
# What is typed in arrives

A line is waiting as bytes: those of its characters, one character after the other, and one for the
line end. Only the line end has that byte (`linefeed_mem_bytes`), so a text without line ends is
found again as it was typed, however much is waiting behind it. Where the line end comes with a
carriage return, the two go together; and then a carriage return that belongs to the text goes in
place of one that does not (`typedIn_of_typed`).
-/

set_option autoImplicit false

namespace TabletopDice

namespace Text

/-- The bytes of a text. -/
def bytes (t : Text) : List UInt8 := t.flatMap String.utf8EncodeChar

theorem bytes_append (t u : Text) : bytes (t ++ u) = bytes t ++ bytes u := List.flatMap_append

theorem fromUTF8?_bytes (t : Text) :
    String.fromUTF8? t.bytes.toByteArray = some (String.ofList t) := by
  have valid : t.bytes.toByteArray.IsValidUTF8 := (String.ofList t).isValidUTF8
  rw [String.fromUTF8?, dif_pos valid]
  rfl

/-- A byte of a character is the code of that character, or none that is below 128. -/
theorem toNat_of_mem_utf8EncodeChar {c : Char} {b : UInt8} (h : b ∈ String.utf8EncodeChar c) :
    b.toNat = c.toNat ∨ 128 ≤ b.toNat := by
  have value : c.val.toNat = c.toNat := rfl
  rw [String.utf8EncodeChar] at h
  split at h
  · rw [List.mem_singleton.1 h, UInt8.toNat_ofNat']
    omega
  · right
    split at h
    · simp only [List.mem_cons, List.not_mem_nil, or_false] at h
      rcases h with rfl | rfl <;> rw [UInt8.toNat_ofNat'] <;> omega
    split at h
    · simp only [List.mem_cons, List.not_mem_nil, or_false] at h
      rcases h with rfl | rfl | rfl <;> rw [UInt8.toNat_ofNat'] <;> omega
    · simp only [List.mem_cons, List.not_mem_nil, or_false] at h
      rcases h with rfl | rfl | rfl | rfl <;> rw [UInt8.toNat_ofNat'] <;> omega

theorem linefeed_mem_bytes {t : Text} : 10 ∈ t.bytes ↔ '\n' ∈ t := by
  constructor
  · intro h
    obtain ⟨c, mem, within⟩ := List.mem_flatMap.1 h
    have code : 10 = c.toNat := (toNat_of_mem_utf8EncodeChar within).resolve_right (by decide)
    rwa [show '\n' = c from Char.toNat_inj.1 code]
  · exact fun mem => List.mem_flatMap.2 ⟨'\n', mem, by decide⟩

theorem bytes_ne_nil {t : Text} (nonempty : t ≠ []) : t.bytes ≠ [] := by
  obtain ⟨c, u, rfl⟩ := List.exists_cons_of_ne_nil nonempty
  simp [bytes]

end Text

namespace CommandLine

/-- What is waiting where a text is typed in: the text and a line end of either kind, whatever comes
behind it, or the text and no more. Where nothing at all is waiting, nothing was typed in. -/
inductive Typed (t : Text) : List UInt8 → Prop
  | line (behind : List UInt8) : Typed t (t.bytes ++ 10 :: behind)
  | returned (behind : List UInt8) : Typed t (t.bytes ++ 13 :: 10 :: behind)
  | last (nonempty : t ≠ []) : Typed t t.bytes

theorem firstLine_bytes_append {t : Text} {behind : List UInt8} (single : '\n' ∉ t)
    (waiting : t.bytes ++ behind ≠ []) (ends : behind.takeWhile (· ≠ 10) = []) :
    firstLine (t.bytes ++ behind) = some t.bytes := by
  have within : ∀ b ∈ t.bytes, decide (b ≠ 10) = true := fun b mem =>
    decide_eq_true fun same => single (Text.linefeed_mem_bytes.1 (same ▸ mem))
  rw [firstLine, if_neg (by rwa [List.isEmpty_iff]), List.takeWhile_append_of_pos within, ends,
    List.append_nil]

theorem typedIn_of_firstLine {t : Text} {bytes : List UInt8}
    (line : firstLine bytes = some t.bytes) :
    typedIn bytes = .ok (if lineEnds bytes then dropReturn t else t) := by
  simp [typedIn, line, Text.fromUTF8?_bytes]

theorem typedIn_line {t : Text} (single : '\n' ∉ t) (behind : List UInt8) :
    typedIn (t.bytes ++ 10 :: behind) = .ok (dropReturn t) := by
  rw [typedIn_of_firstLine (firstLine_bytes_append single (by simp) (by simp)), if_pos]
  simp [lineEnds]

theorem typedIn_last {t : Text} (single : '\n' ∉ t) (nonempty : t ≠ []) :
    typedIn t.bytes = .ok t := by
  have line : firstLine (t.bytes ++ []) = some t.bytes :=
    firstLine_bytes_append single (by simp [Text.bytes_ne_nil nonempty]) rfl
  rw [List.append_nil] at line
  rw [typedIn_of_firstLine line, if_neg]
  simpa [lineEnds, Text.linefeed_mem_bytes] using single

/-- What was typed in is read, except perhaps for a carriage return at its end. -/
theorem typedIn_of_typed {t : Text} {bytes : List UInt8} (single : '\n' ∉ t)
    (typed : Typed t bytes) : typedIn bytes = .ok t ∨ typedIn bytes = .ok (dropReturn t) := by
  cases typed with
  | line behind => exact .inr (typedIn_line single behind)
  | returned behind =>
    -- the line is the text with a carriage return, and that is the one that is dropped
    have line := typedIn_line (t := t ++ ['\r']) (by simp [single]) behind
    rw [Text.bytes_append, List.append_assoc] at line
    exact .inl (line.trans (by simp [dropReturn]))
  | last nonempty => exact .inl (typedIn_last single nonempty)

end CommandLine

end TabletopDice
