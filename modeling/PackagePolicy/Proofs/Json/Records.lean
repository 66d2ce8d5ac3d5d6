import PackagePolicy.Json.Parser

/-!
# Records of texts

An object whose fields are texts is read back from its written form, at whatever depth it is written
and whatever characters the texts have (`parse?_render_texts`).
-/

namespace PackagePolicy.Json
open Text

/-! ### Texts in quotes -/

theorem hexDigit?_digitChar : ∀ n < 16, hexDigit? (Nat.digitChar n) = some n := by decide

theorem numberedEscape?_control {c : Char} (hc : c.toNat < 0x20) (s : Text) :
    numberedEscape? ('0' :: '0' :: Nat.digitChar (c.toNat / 16) :: Nat.digitChar (c.toNat % 16) :: s) =
      some (c, s) := by
  have hzero : hexDigit? '0' = some 0 := rfl
  have hhigh : hexDigit? (Nat.digitChar (c.toNat / 16)) = some (c.toNat / 16) :=
    hexDigit?_digitChar _ (by omega)
  have hlow : hexDigit? (Nat.digitChar (c.toNat % 16)) = some (c.toNat % 16) :=
    hexDigit?_digitChar _ (by omega)
  have hvalue : 16 * (c.toNat / 16) + c.toNat % 16 = c.toNat := by omega
  have htrailing : isTrailing c.toNat = false := by
    rw [isTrailing, Bool.and_eq_false_iff, decide_eq_false_iff_not]
    left
    omega
  have hleading : isLeading c.toNat = false := by
    rw [isLeading, Bool.and_eq_false_iff, decide_eq_false_iff_not]
    left
    omega
  simp [numberedEscape?, hex4?, hzero, hhigh, hlow, hvalue, htrailing, hleading, Char.ofNat_toNat]

theorem escape?_escapeControl {c : Char} (hc : c.toNat < 0x20) (s : Text) :
    ∃ t, escapeControl c ++ s = '\\' :: t ∧ escape? t = some (c, s) := by
  unfold escapeControl
  split
  next h => exact ⟨_, rfl, by rw [h]; rfl⟩
  · split
    next h => exact ⟨_, rfl, by rw [h]; rfl⟩
    · split
      next h => exact ⟨_, rfl, by rw [h]; rfl⟩
      · split
        next h => exact ⟨_, rfl, by rw [h]; rfl⟩
        · split
          next h => exact ⟨_, rfl, by rw [h]; rfl⟩
          · exact ⟨_, rfl, numberedEscape?_control hc s⟩

/- A character is written as it is, or behind a backslash in a way that gives the character back. -/
theorem escape_cases (c : Char) (s : Text) :
    (escape c = [c] ∧ c ≠ '"' ∧ c ≠ '\\' ∧ ¬ c.toNat < 0x20) ∨
      ∃ t, escape c ++ s = '\\' :: t ∧ escape? t = some (c, s) := by
  unfold escape
  split
  next h => exact .inr ⟨_, rfl, by rw [h]; rfl⟩
  next hquote =>
    split
    next h => exact .inr ⟨_, rfl, by rw [h]; rfl⟩
    next hbackslash =>
      split
      next hcontrol => exact .inr (escape?_escapeControl hcontrol s)
      next hcontrol => exact .inl ⟨rfl, hquote, hbackslash, hcontrol⟩

theorem string?_escape (fuel : Nat) (c : Char) (s : Text) :
    string? (fuel + 1) (escape c ++ s) = (string? fuel s).map fun p => (c :: p.1, p.2) := by
  rcases escape_cases c s with ⟨hplain, hquote, hbackslash, hcontrol⟩ | ⟨t, ht, hescape⟩
  · rw [hplain, List.singleton_append, string?, if_neg hcontrol]
    · exact hquote
    · exact hbackslash
  · rw [ht, string?, hescape]
    show (do
      let p ← string? fuel s
      return (c :: p.1, p.2)) = _
    cases string? fuel s <;> rfl

theorem string?_quoted (s rest : Text) {fuel : Nat} (hfuel : s.length < fuel) :
    string? fuel (s.flatMap escape ++ '"' :: rest) = some (s, rest) := by
  induction s generalizing fuel with
  | nil =>
    obtain ⟨n, rfl⟩ := Nat.exists_eq_add_of_lt hfuel
    rfl
  | cons c s ih =>
    obtain ⟨n, rfl⟩ := Nat.exists_eq_add_of_lt hfuel
    have hs : s.length < s.length + 1 + n := by omega
    have hread := string?_escape (s.length + 1 + n) c (s.flatMap escape ++ '"' :: rest)
    rw [ih hs] at hread
    rw [List.flatMap_cons, List.append_assoc]
    exact hread

theorem length_le_flatMap_escape (s : Text) : s.length ≤ (s.flatMap escape).length := by
  induction s with
  | nil => exact Nat.le_refl 0
  | cons c s ih =>
    have hc : 0 < (escape c).length := by
      rcases escape_cases c [] with ⟨hplain, _⟩ | ⟨t, ht, _⟩
      · rw [hplain]
        exact Nat.zero_lt_one
      · rw [List.append_nil] at ht
        rw [ht]
        exact Nat.zero_lt_succ _
    rw [List.flatMap_cons, List.length_append, List.length_cons]
    omega

/-! ### Values -/

theorem skipSpace_newline (depth : Nat) (s : Text) : skipSpace (newline depth ++ s) = skipSpace s := by
  have hspaces : ∀ c ∈ newline depth, isSpace c = true := by
    intro c hc
    rcases List.mem_cons.mp hc with rfl | hc
    · rfl
    · rw [List.eq_of_mem_replicate hc]
      rfl
  exact List.dropWhile_append_of_pos hspaces

theorem skipSpace_cons {c : Char} (hc : isSpace c = false) (s : Text) : skipSpace (c :: s) = c :: s := by
  rw [skipSpace, List.dropWhile_cons, hc, if_neg Bool.false_ne_true]

theorem value?_quote (s rest : Text) (fuel depth : Nat) :
    value? (fuel + 1) depth (' ' :: (quote s ++ rest)) = some (string s, rest) := by
  have hspace : skipSpace (' ' :: (quote s ++ rest)) = '"' :: (s.flatMap escape ++ '"' :: rest) := by
    rw [quote, List.cons_append, List.cons_append, List.append_assoc]
    rfl
  have hlength : s.length < (s.flatMap escape ++ '"' :: rest).length + 1 := by
    have hs := length_le_flatMap_escape s
    rw [List.length_append]
    omega
  simp only [value?, hspace, string?_quoted s rest hlength, Option.map_some]

/-! ### Fields -/

/-- The fields of a record of texts. -/
def textFields (fields : List (Text × Text)) : List (Text × Json) :=
  fields.map fun f => (f.1, string f.2)

/-- One field as it is written, without the line end before it. -/
def writtenField (f : Text × Text) : Text := quote f.1 ++ ':' :: ' ' :: quote f.2

theorem renderFields_cons (depth : Nat) (f : Text × Text) (fields : List (Text × Text)) :
    renderFields depth (textFields (f :: fields)) =
      ',' :: (newline depth ++ (writtenField f ++ renderFields depth (textFields fields))) := by
  simp [textFields, writtenField, renderFields, render]

theorem fields?_newline (fuel levels depth : Nat) (s : Text) :
    fields? fuel levels (newline depth ++ s) = fields? fuel levels s := by
  cases fuel with
  | zero => rw [fields?, fields?]
  | succ fuel => rw [fields?, fields?, skipSpace_newline]

/- What follows the field decides whether it is the last one. -/
theorem fields?_field (f : Text × Text) (fuel levels : Nat) (s : Text) :
    fields? (fuel + 2) levels (writtenField f ++ s) =
      match skipSpace s with
      | '\x7d' :: r => some (textFields [f], r)
      | ',' :: r => (fields? (fuel + 1) levels r).bind fun p => some ((f.1, string f.2) :: p.1, p.2)
      | _ => none := by
  have hopen : skipSpace (writtenField f ++ s) =
      '"' :: (f.1.flatMap escape ++ '"' :: (':' :: (' ' :: (quote f.2 ++ s)))) := by
    rw [writtenField, quote]
    simp only [List.cons_append, List.append_assoc, List.nil_append]
    exact skipSpace_cons rfl _
  have hname : f.1.length <
      (f.1.flatMap escape ++ '"' :: (':' :: (' ' :: (quote f.2 ++ s)))).length + 1 := by
    have hle := length_le_flatMap_escape f.1
    rw [List.length_append]
    omega
  have hcolon : skipSpace (':' :: (' ' :: (quote f.2 ++ s))) = ':' :: (' ' :: (quote f.2 ++ s)) :=
    skipSpace_cons rfl _
  rw [fields?, hopen]
  simp only [string?_quoted _ _ hname, Option.bind_eq_bind, Option.bind_some, hcolon, value?_quote]
  rfl

theorem fields?_written (f : Text × Text) (fields : List (Text × Text)) (n levels depth outer : Nat)
    (rest : Text) :
    fields? (n + (fields.length + 2)) levels (writtenField f ++ (renderFields depth (textFields fields) ++
        (newline outer ++ '\x7d' :: rest))) = some (textFields (f :: fields), rest) := by
  induction fields generalizing f with
  | nil =>
    have hclose : skipSpace (newline outer ++ '\x7d' :: rest) = '\x7d' :: rest := by
      rw [skipSpace_newline]
      exact skipSpace_cons rfl rest
    have hfield := fields?_field f n levels (newline outer ++ '\x7d' :: rest)
    rw [hclose] at hfield
    exact hfield
  | cons g fields ih =>
    have hcomma : renderFields depth (textFields (g :: fields)) ++ (newline outer ++ '\x7d' :: rest) =
        ',' :: (newline depth ++ (writtenField g ++ (renderFields depth (textFields fields) ++
          (newline outer ++ '\x7d' :: rest)))) := by
      rw [renderFields_cons]
      simp only [List.cons_append, List.append_assoc]
    rw [hcomma]
    refine (fields?_field f (n + (fields.length + 1)) levels _).trans ?_
    rw [skipSpace_cons rfl]
    show (fields? (n + (fields.length + 2)) levels _).bind _ = _
    rw [fields?_newline, ih g]
    rfl

/-! ### Records -/

theorem value?_render_texts (f : Text × Text) (fields : List (Text × Text)) (n levels depth : Nat) :
    value? (n + (fields.length + 3)) (levels + 1) ((object (textFields (f :: fields))).render depth) =
      some (object (textFields (f :: fields)), []) := by
  have htext : (object (textFields (f :: fields))).render depth =
      '\x7b' :: (newline (depth + 1) ++ (writtenField f ++ (renderFields (depth + 1) (textFields fields) ++
        (newline depth ++ ['\x7d'])))) := by
    simp [textFields, render, writtenField]
  have hfirst : skipSpace (newline (depth + 1) ++ (writtenField f ++
      (renderFields (depth + 1) (textFields fields) ++ (newline depth ++ ['\x7d'])))) =
        writtenField f ++ (renderFields (depth + 1) (textFields fields) ++ (newline depth ++ ['\x7d'])) := by
    rw [skipSpace_newline]
    exact skipSpace_cons rfl _
  rw [htext, ← Nat.add_assoc n, value?, skipSpace_cons rfl]
  simp only [hfirst]
  exact congrArg (Option.map fun p => (object p.1, p.2))
    (fields?_written f fields n levels (depth + 1) depth [])

theorem length_lt_render_texts (f : Text × Text) (fields : List (Text × Text)) (depth : Nat) :
    fields.length < ((object (textFields (f :: fields))).render depth).length := by
  have hmore : ∀ depth, fields.length ≤ (renderFields depth (textFields fields)).length := by
    intro depth
    induction fields with
    | nil => exact Nat.zero_le _
    | cons g fields ih =>
      rw [renderFields_cons]
      simp only [List.length_cons, List.length_append]
      omega
  have hle := hmore (depth + 1)
  simp only [textFields, List.map_cons, render, List.length_cons, List.length_append] at hle ⊢
  omega

theorem parse?_render_texts (f : Text × Text) (fields : List (Text × Text)) (depth : Nat) :
    parse? ((object (textFields (f :: fields))).render depth) = some (object (textFields (f :: fields))) := by
  have hlength := length_lt_render_texts f fields depth
  have hfuel : fields.length + 3 ≤ 2 * ((object (textFields (f :: fields))).render depth).length + 2 := by
    omega
  obtain ⟨n, hn⟩ := Nat.exists_eq_add_of_le' hfuel
  rw [parse?, hn, value?_render_texts]
  rfl

end PackagePolicy.Json
