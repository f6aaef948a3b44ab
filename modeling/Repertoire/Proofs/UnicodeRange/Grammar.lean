import Repertoire.Proofs.Hex
import Repertoire.UnicodeRange

/-!
# The grammar of tokens

A token is a mark, a plus sign, a first number that may hold question marks, and perhaps a hyphen
and a second number. `TokenForm` is a token taken apart like this, with what its parts have to
fulfil; `TokenForm.bounds` says what it covers, by filling digits into the first number. The reader
goes another way: it splits at hyphens and reads a list of choices. All the same it accepts the texts
of the forms and no others, and finds their bounds (`tokenBounds?_reads_forms`).
-/

namespace Repertoire.UnicodeRange

/-! ## Numbers of one to six places -/

/-- Has the text one to six characters, each of them as `P` says? -/
def OneToSix (P : CodePoint → Prop) (t : Text) : Prop :=
  (1 ≤ t.length ∧ t.length ≤ 6) ∧ ∀ c ∈ t, P c

/-- May the character stand in the first number of a token? -/
def IsChoice (c : CodePoint) : Prop := Hex.IsDigit c ∨ c = ('?' : CodePoint)

/-- The text with every question mark read as the given digit. -/
def fill (digit : CodePoint) (t : Text) : Text :=
  t.map fun c => if c = ('?' : CodePoint) then digit else c

theorem fill_of_not_mem {digit : CodePoint} {t : Text} (h : ('?' : CodePoint) ∉ t) :
    fill digit t = t := by
  rw [fill, List.map_congr_left fun c hc => if_neg (ne_of_mem_of_not_mem hc h), List.map_id']

theorem oneToSix_fill {digit : CodePoint} (hdigit : Hex.IsDigit digit) {t : Text}
    (h : OneToSix IsChoice t) : OneToSix Hex.IsDigit (fill digit t) := by
  refine ⟨by rw [fill, List.length_map]; exact h.1, fun c hc => ?_⟩
  obtain ⟨d, hd, rfl⟩ := List.mem_map.1 hc
  split
  · exact hdigit
  · rename_i hmark
    exact (h.2 d hd).resolve_right hmark

theorem numeral_le_of_oneToSix {t : Text} (h : OneToSix Hex.IsDigit t) :
    Hex.numeral t ≤ 0xFFFFFF :=
  Nat.le_of_lt_succ (Hex.numeral_lt h.2 h.1.2)

/-! ## The forms of a token -/

/-- A token taken apart. -/
structure TokenForm where
  mark : CodePoint
  start : Text
  /-- What follows the hyphen, if there is one. -/
  stop? : Option Text
  isMark : mark = ('u' : CodePoint) ∨ mark = ('U' : CodePoint)
  start_fits : OneToSix IsChoice start
  stop_fits : ∀ stop ∈ stop?, OneToSix Hex.IsDigit stop

namespace TokenForm

def text (form : TokenForm) : Text :=
  form.mark :: ('+' : CodePoint) ::
    (form.start ++ form.stop?.elim [] fun stop => ('-' : CodePoint) :: stop)

/-- What a token covers: with a question mark from all zeros to all `F`s, whatever end it names,
and else from its first number to its end, or just the first number. -/
def bounds (form : TokenForm) : Nat × Nat :=
  if form.start.contains ('?' : CodePoint) then
    (Hex.numeral (fill ('0' : CodePoint) form.start),
      Hex.numeral (fill ('F' : CodePoint) form.start))
  else (Hex.numeral form.start, form.stop?.elim (Hex.numeral form.start) Hex.numeral)

theorem bounds_le (form : TokenForm) :
    form.bounds.1 ≤ 0xFFFFFF ∧ form.bounds.2 ≤ 0xFFFFFF := by
  obtain ⟨mark, start, stop?, -, hstart, hstop⟩ := form
  unfold bounds
  split
  · have hzero : Hex.IsDigit ('0' : CodePoint) := (Hex.isDigit_digit 0).1
    have hlast : Hex.IsDigit ('F' : CodePoint) := (Hex.isDigit_digit 15).1
    exact ⟨numeral_le_of_oneToSix (oneToSix_fill hzero hstart),
      numeral_le_of_oneToSix (oneToSix_fill hlast hstart)⟩
  · rename_i hmark
    rw [List.contains_iff_mem] at hmark
    have hfirst := numeral_le_of_oneToSix (oneToSix_fill (Hex.isDigit_digit 0).1 hstart)
    rw [fill_of_not_mem hmark] at hfirst
    refine ⟨hfirst, ?_⟩
    cases stop? with
    | none => exact hfirst
    | some stop => exact numeral_le_of_oneToSix (hstop stop rfl)

end TokenForm

/-! ## Reading a number -/

/-- What a question mark leaves open, or the place of the digit. -/
def choice (c : CodePoint) : Option Nat :=
  if c = ('?' : CodePoint) then none else some (Hex.place c)

theorem wildcard?_eq_some_iff {c : CodePoint} {d : Option Nat} :
    wildcard? c = some d ↔ IsChoice c ∧ d = choice c := by
  unfold wildcard? choice IsChoice
  by_cases hc : c = ('?' : CodePoint)
  · rw [if_pos hc, if_pos hc, Option.some.injEq, eq_comm, and_iff_right (Or.inr hc)]
  · rw [if_neg hc, if_neg hc, Option.map_eq_some_iff, or_iff_left hc]
    simp only [Hex.value?_eq_some_iff]
    constructor
    · rintro ⟨n, ⟨hdigit, rfl⟩, rfl⟩
      exact ⟨hdigit, rfl⟩
    · rintro ⟨hdigit, rfl⟩
      exact ⟨_, ⟨hdigit, rfl⟩, rfl⟩

section Reading

variable {δ : Type} {read? : CodePoint → Option δ} {P : CodePoint → Prop} {f : CodePoint → δ}
  (hread : ∀ c d, read? c = some d ↔ P c ∧ d = f c) {t : Text} {ds : List δ}

include hread

theorem mapM_eq_some_iff : t.mapM read? = some ds ↔ (∀ c ∈ t, P c) ∧ ds = t.map f := by
  induction t generalizing ds with
  | nil => simp [eq_comm]
  | cons c t ih =>
      rw [List.mapM_cons]
      simp only [Option.bind_eq_bind, Option.bind_eq_some_iff, hread, ih, List.forall_mem_cons,
        List.map_cons, Option.pure_def, Option.some.injEq]
      constructor
      · rintro ⟨d, ⟨hc, rfl⟩, ds, ⟨ht, rfl⟩, rfl⟩
        exact ⟨⟨hc, ht⟩, rfl⟩
      · rintro ⟨⟨hc, ht⟩, rfl⟩
        exact ⟨_, ⟨hc, rfl⟩, _, ⟨ht, rfl⟩, rfl⟩

theorem readDigits?_eq_some_iff : readDigits? read? t = some ds ↔ OneToSix P t ∧ ds = t.map f := by
  unfold readDigits?
  split
  · rename_i hfits
    rw [mapM_eq_some_iff hread, OneToSix, and_iff_right hfits]
  · rename_i hfits
    exact ⟨nofun, fun h => absurd h.1.1 hfits⟩

end Reading

theorem readDigits?_start {t : Text} {ds : List (Option Nat)} :
    readDigits? wildcard? t = some ds ↔ OneToSix IsChoice t ∧ ds = t.map choice :=
  readDigits?_eq_some_iff fun _ _ => wildcard?_eq_some_iff

theorem readDigits?_stop {t : Text} {ds : List Nat} :
    readDigits? Hex.value? t = some ds ↔ OneToSix Hex.IsDigit t ∧ ds = t.map Hex.place :=
  readDigits?_eq_some_iff fun _ _ => Hex.value?_eq_some_iff

theorem contains_choices {t : Text} :
    (t.map choice).contains none = true ↔ ('?' : CodePoint) ∈ t := by
  rw [List.contains_iff_mem, List.mem_map]
  constructor
  · rintro ⟨c, hc, hnone⟩
    by_cases hmark : c = ('?' : CodePoint)
    · rwa [← hmark]
    · rw [choice, if_neg hmark] at hnone
      cases hnone
  · intro h
    exact ⟨_, h, if_pos rfl⟩

/-- With the place of a digit for each question mark, the choices spell the text that is filled
with the digit. -/
theorem ofValues_choices {digit : CodePoint} {n : Nat} (hdigit : Hex.place digit = n) (t : Text) :
    Hex.ofValues ((t.map choice).map (·.getD n)) = Hex.numeral (fill digit t) := by
  rw [← Hex.ofValues_map_place, fill, List.map_map, List.map_map]
  refine congrArg Hex.ofValues (List.map_congr_left fun c _ => ?_)
  by_cases hc : c = ('?' : CodePoint)
  · simp [choice, hc, hdigit]
  · simp [choice, hc]

/-! ## Reading two numbers -/

/-- An end is read even where a question mark makes it irrelevant. -/
theorem fits_of_boundsOf? {start : Text} {stop? : Option Text}
    (h : (boundsOf? start stop?).isSome = true) :
    OneToSix IsChoice start ∧ ∀ stop ∈ stop?, OneToSix Hex.IsDigit stop := by
  obtain ⟨bounds, h⟩ := Option.isSome_iff_exists.1 h
  obtain ⟨digits, hdigits, hrest⟩ := Option.bind_eq_some_iff.1 h
  refine ⟨(readDigits?_start.1 hdigits).1, ?_⟩
  rintro stop ⟨⟩
  obtain ⟨last, hlast, -⟩ := Option.bind_eq_some_iff.1 hrest
  obtain ⟨ds, hds, -⟩ := Option.map_eq_some_iff.1 hlast
  exact (readDigits?_stop.1 hds).1

theorem boundsOf?_of_readDigits? {start : Text} {stop? : Option Text} {digits : List (Option Nat)}
    {last : Nat} (hstart : readDigits? wildcard? start = some digits)
    (hlast : stop?.elim (some (Hex.ofValues (digits.map (·.getD 0))))
      (fun stop => (readDigits? Hex.value? stop).map Hex.ofValues) = some last) :
    boundsOf? start stop? = some (Hex.ofValues (digits.map (·.getD 0)),
      if digits.contains none then Hex.ofValues (digits.map (·.getD 15)) else last) := by
  have hbranches : boundsOf? start stop?
      = if digits.contains none then
          some (Hex.ofValues (digits.map (·.getD 0)), Hex.ofValues (digits.map (·.getD 15)))
        else some (Hex.ofValues (digits.map (·.getD 0)), last) := by
    cases stop? with
    | none =>
        rw [Option.elim_none] at hlast
        rw [boundsOf?, hstart, ← Option.some.inj hlast]
        rfl
    | some stop =>
        rw [Option.elim_some] at hlast
        simp only [boundsOf?, hstart, hlast, Option.bind_eq_bind, Option.bind_some]
        rfl
  rw [hbranches]
  split <;> rfl

theorem boundsOf?_form (form : TokenForm) :
    boundsOf? form.start form.stop? = some form.bounds := by
  obtain ⟨mark, start, stop?, -, hstart, hstop⟩ := form
  have hfirst : Hex.ofValues ((start.map choice).map (·.getD 0))
      = Hex.numeral (fill ('0' : CodePoint) start) := ofValues_choices (by decide) start
  have hlast : Hex.ofValues ((start.map choice).map (·.getD 15))
      = Hex.numeral (fill ('F' : CodePoint) start) := ofValues_choices (by decide) start
  have hnamed : stop?.elim (some (Hex.ofValues ((start.map choice).map (·.getD 0))))
      (fun stop => (readDigits? Hex.value? stop).map Hex.ofValues)
        = some (stop?.elim (Hex.numeral (fill ('0' : CodePoint) start)) Hex.numeral) := by
    cases stop? with
    | none => rw [Option.elim_none, Option.elim_none, hfirst]
    | some stop =>
        rw [Option.elim_some, Option.elim_some, readDigits?_stop.2 ⟨hstop stop rfl, rfl⟩,
          Option.map_some, Hex.ofValues_map_place]
  rw [boundsOf?_of_readDigits? (readDigits?_start.2 ⟨hstart, rfl⟩) hnamed, hfirst, hlast,
    TokenForm.bounds]
  by_cases hmark : ('?' : CodePoint) ∈ start
  · rw [if_pos (contains_choices.2 hmark), if_pos (List.contains_iff_mem.2 hmark)]
  · rw [if_neg (mt contains_choices.1 hmark), if_neg (mt List.contains_iff_mem.1 hmark),
      fill_of_not_mem hmark]

/-! ## Reading a token -/

/-- Neither a digit nor a question mark is a hyphen. -/
theorem hyphen_not_mem {t : Text} (h : ∀ c ∈ t, IsChoice c) : ('-' : CodePoint) ∉ t := by
  have hhyphen : ¬ IsChoice ('-' : CodePoint) := by
    unfold IsChoice Hex.IsDigit
    decide
  exact fun hmem => hhyphen (h _ hmem)

theorem tokenBounds?_text (form : TokenForm) : tokenBounds? form.text = some form.bounds := by
  rw [← boundsOf?_form]
  obtain ⟨mark, start, stop?, hmark, hstart, hstop⟩ := form
  have hsplit := hyphen_not_mem hstart.2
  cases stop? with
  | none =>
      rw [TokenForm.text, tokenBounds?, if_pos ⟨hmark, rfl⟩, Option.elim_none, List.append_nil,
        List.splitOn_eq_singleton hsplit]
  | some stop =>
      have hsplit' := hyphen_not_mem fun c hc => Or.inl ((hstop stop rfl).2 c hc)
      rw [TokenForm.text, tokenBounds?, if_pos ⟨hmark, rfl⟩, Option.elim_some,
        List.splitOn_append_cons_self_of_not_mem hsplit, List.splitOn_eq_singleton hsplit']

/-- Whatever is read as a token has a form. -/
theorem exists_form {t : Text} (h : (tokenBounds? t).isSome = true) :
    ∃ form : TokenForm, form.text = t := by
  unfold tokenBounds? at h
  split at h
  · rename_i mark plus rest
    split at h
    · rename_i hmark
      obtain ⟨hmark, rfl⟩ := hmark
      have hjoin : [('-' : CodePoint)].intercalate (rest.splitOn ('-' : CodePoint)) = rest :=
        List.intercalate_splitOn _
      split at h
      · rename_i start hsplit
        obtain ⟨hstart, hstop⟩ := fits_of_boundsOf? h
        refine ⟨⟨mark, start, none, hmark, hstart, hstop⟩, ?_⟩
        rw [hsplit, List.intercalate_singleton] at hjoin
        rw [← hjoin, TokenForm.text, Option.elim_none, List.append_nil]
      · rename_i start stop hsplit
        obtain ⟨hstart, hstop⟩ := fits_of_boundsOf? h
        refine ⟨⟨mark, start, some stop, hmark, hstart, hstop⟩, ?_⟩
        rw [hsplit, List.intercalate_cons_cons, List.intercalate_singleton,
          List.append_assoc] at hjoin
        rw [← hjoin]
        rfl
      · cases h
    · cases h
  · cases h

theorem tokenBounds?_le {t : Text} {first last : Nat} (h : tokenBounds? t = some (first, last)) :
    first ≤ 0xFFFFFF ∧ last ≤ 0xFFFFFF := by
  obtain ⟨form, rfl⟩ := exists_form (Option.isSome_of_eq_some h)
  have hbounds : form.bounds = (first, last) := Option.some.inj ((tokenBounds?_text form).symm.trans h)
  have hle := form.bounds_le
  rwa [hbounds] at hle

/-- **A token is read exactly if it is well formed, and read for what it says.** The reader accepts a
text if and only if the whole of it is a mark, a plus sign, one to six characters that are digits or
question marks, and perhaps a hyphen with one to six digits. What it finds are the bounds of the
form: with a question mark, the first number filled with zeros and filled with `F`s, and any end is
ignored; else the first number and the end, or the first number twice. None of them is above
`0xFFFFFF`. -/
theorem tokenBounds?_reads_forms :
    (∀ t : Text, (tokenBounds? t).isSome = true ↔ ∃ form : TokenForm, form.text = t)
      ∧ (∀ form : TokenForm, ('?' : CodePoint) ∈ form.start →
          tokenBounds? form.text = some (Hex.numeral (fill ('0' : CodePoint) form.start),
            Hex.numeral (fill ('F' : CodePoint) form.start)))
      ∧ (∀ form : TokenForm, ('?' : CodePoint) ∉ form.start →
          tokenBounds? form.text = some (Hex.numeral form.start,
            form.stop?.elim (Hex.numeral form.start) Hex.numeral))
      ∧ ∀ (t : Text) (first last : Nat), tokenBounds? t = some (first, last) →
          first ≤ 0xFFFFFF ∧ last ≤ 0xFFFFFF := by
  refine ⟨fun t => ⟨exists_form, ?_⟩, fun form hmark => ?_, fun form hmark => ?_,
    fun _ _ _ => tokenBounds?_le⟩
  · rintro ⟨form, rfl⟩
    rw [tokenBounds?_text]
    rfl
  · rw [tokenBounds?_text, TokenForm.bounds, if_pos (List.contains_iff_mem.2 hmark)]
  · rw [tokenBounds?_text, TokenForm.bounds, if_neg (mt List.contains_iff_mem.1 hmark)]

/-- An end next to a question mark must be well formed, and then is ignored. -/
example : tokenBounds? (Text.ofString "u+4?f-5") = some (0x40F, 0x4FF)
    ∧ tokenBounds? (Text.ofString "u+4?f-?") = none := by
  decide

end Repertoire.UnicodeRange
