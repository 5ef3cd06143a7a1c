import Activation.Toml.Expression

namespace Activation.Toml

variable {chars rest : List Char}

-- What stands for itself between double quotes.
def IsPlain (c : Char) : Prop :=
  c ≠ '"' ∧ c ≠ '\\' ∧ (c = '\t' ∨ (0x20 ≤ c.toNat ∧ c.toNat ≠ 0x7F))

instance : DecidablePred IsPlain := fun c =>
  inferInstanceAs
    (Decidable (c ≠ '"' ∧ c ≠ '\\' ∧ (c = '\t' ∨ (0x20 ≤ c.toNat ∧ c.toNat ≠ 0x7F))))

def IsPlainText (text : String) : Prop := ∀ c ∈ text.toList, IsPlain c

instance (text : String) : Decidable (IsPlainText text) :=
  List.decidableBAll _ text.toList

private theorem IsPlain.isPrintable {c : Char} (h : IsPlain c) : isPrintable c = true := by
  simpa [Toml.isPrintable] using h.2.2

theorem basicChars_plain (h : ∀ c ∈ chars, IsPlain c) (rest : List Char) :
    basicChars .none (chars ++ '"' :: rest) = .ok (chars, rest) := by
  induction chars with
  | nil => rfl
  | cons c others ih =>
      obtain ⟨hc, hothers⟩ := List.forall_mem_cons.mp h
      obtain ⟨hquote, hbackslash, -⟩ := id hc
      rw [List.cons_append, basicChars, if_neg hquote, if_neg hbackslash, if_pos hc.isPrintable,
        ih hothers]
      · rfl
      · exact nofun
      · exact nofun

-- Three quotes in a row would begin a text of several lines.
theorem text_plain {written : String} (h : IsPlainText written) (hrest : rest.head? ≠ some '"') :
    text ('"' :: (written.toList ++ '"' :: rest)) = .ok (written, rest) := by
  have hline : text ('"' :: (written.toList ++ '"' :: rest)) =
      asText (basicChars .none (written.toList ++ '"' :: rest)) := by
    cases hw : written.toList with
    | nil =>
        cases rest with
        | nil => rfl
        | cons c rest =>
            have hc : c ≠ '"' := fun he => hrest (congrArg some he)
            rw [List.nil_append, text]
            simp [hc]
    | cons c others =>
        have hc : c ≠ '"' := (h c (by rw [hw]; exact List.mem_cons_self)).1
        rw [List.cons_append, text]
        simp [hc]
  rw [hline, basicChars_plain h]
  simp [asText, Except.map]

theorem valueWithin_plain {written : String} (h : IsPlainText written)
    (hrest : rest.head? ≠ some '"') (depth : Nat) :
    valueWithin depth ('"' :: (written.toList ++ '"' :: rest)) = .ok (.text written, rest) := by
  have hscalar : valueWithin depth ('"' :: (written.toList ++ '"' :: rest)) =
      asValue .text (text ('"' :: (written.toList ++ '"' :: rest))) := by
    cases depth <;> rfl
  rw [hscalar, text_plain h hrest]
  rfl

theorem key_plain {written : String} (h : IsPlainText written) (rest : List Char) :
    key ('"' :: (written.toList ++ '"' :: ' ' :: '=' :: rest)) = .ok ([written], '=' :: rest) := by
  have hkey : simpleKey (skipGap ('"' :: (written.toList ++ '"' :: ' ' :: '=' :: rest))) =
      .ok (written, ' ' :: '=' :: rest) := by
    have hgap : skipGap ('"' :: (written.toList ++ '"' :: ' ' :: '=' :: rest)) =
        '"' :: (written.toList ++ '"' :: ' ' :: '=' :: rest) := rfl
    rw [hgap, simpleKey, basicChars_plain h]
    simp [asText, Except.map]
  rw [key, depthLimit, dottedKey, hkey]
  rfl

theorem items_last {item : Step Value} {value : Value}
    (h : item ('"' :: chars) = .ok (value, ']' :: rest)) (bound : Nat) :
    items item (bound + 1) ('"' :: chars) = .ok ([value], rest) := by
  change (item ('"' :: chars)).bind _ = _
  rw [h]
  rfl

theorem items_next {item : Step Value} {value : Value}
    (h : item ('"' :: chars) = .ok (value, ',' :: rest)) (bound : Nat) :
    items item (bound + 1) ('"' :: chars) =
      (items item bound rest).bind fun read => .ok (value :: read.1, read.2) := by
  change (item ('"' :: chars)).bind _ = _
  rw [h]
  rfl

theorem items_space (item : Step Value) {bound : Nat} (h : 0 < bound) (chars : List Char) :
    items item bound (' ' :: chars) = items item bound chars := by
  cases bound with
  | zero => exact absurd h (Nat.lt_irrefl 0)
  | succ bound =>
      rw [items, items]
      rfl

end Activation.Toml
