import Repertoire.Proofs.CodeSet
import Repertoire.Proofs.RangeList.Runs
import Repertoire.Proofs.Text.Blank
import Repertoire.UnicodeRange

/-!
# The pieces of a unicode-range text

A separator takes the blanks around its comma, so the text is searched for something longer than a
comma, from left to right. All the same the pieces are those between the commas, each trimmed for
itself (`pieces_trim`): what a separator takes before its comma is what trimming takes from the
piece on its left, and what it takes after the comma is what trimming takes from the piece on its
right. So the set of a text is told piece by piece (`parse_piecewise`).
-/

namespace Repertoire.UnicodeRange

theorem not_isBlank_comma : CodePoint.isBlank (',' : CodePoint) = false := rfl

/-! ## One separator -/

theorem afterSeparator?_of_not_mem {p : Text} (hp : (',' : CodePoint) ∉ p) :
    afterSeparator? p = none := by
  unfold afterSeparator?
  split
  · rename_i c rest htrim
    have hmem : c ∈ p := Text.mem_of_mem_trimStart (htrim ▸ List.mem_cons_self)
    exact if_neg (ne_of_mem_of_not_mem hmem hp)
  · rfl

/-- Before a comma stand blanks that its separator takes, or something that belongs to a piece. -/
theorem afterSeparator?_append_comma {p : Text} (hp : (',' : CodePoint) ∉ p) (rest : Text) :
    (p.IsBlank ∧ afterSeparator? (p ++ (',' : CodePoint) :: rest) = some rest.trimStart)
      ∨ (¬ p.IsBlank ∧ afterSeparator? (p ++ (',' : CodePoint) :: rest) = none) := by
  unfold afterSeparator?
  rw [Text.trimStart_append_cons not_isBlank_comma]
  cases htrim : p.trimStart with
  | nil => exact Or.inl ⟨Text.trimStart_eq_nil_iff.1 htrim, by simp⟩
  | cons c q =>
      have hmem : c ∈ p := Text.mem_of_mem_trimStart (htrim ▸ List.mem_cons_self)
      refine Or.inr ⟨fun hblank => ?_, if_neg (ne_of_mem_of_not_mem hmem hp)⟩
      rw [Text.trimStart_eq_nil_iff.2 hblank] at htrim
      cases htrim

theorem pieces_of_separator {t after : Text} (h : afterSeparator? t = some after) :
    pieces t = [] :: pieces after := by
  cases t with
  | nil => cases h
  | cons c rest =>
      rw [pieces]
      split
      · rename_i after' h'
        rw [Option.some.inj (h'.symm.trans h)]
      · rename_i h'
        rw [h] at h'
        cases h'

theorem pieces_cons {c : CodePoint} {rest piece : Text} {others : List Text}
    (h : afterSeparator? (c :: rest) = none) (hrest : pieces rest = piece :: others) :
    pieces (c :: rest) = (c :: piece) :: others := by
  rw [pieces]
  split
  · rename_i h'
    rw [h] at h'
    cases h'
  · rw [hrest]

/-! ## All separators -/

theorem pieces_of_not_mem {p : Text} (hp : (',' : CodePoint) ∉ p) : pieces p = [p] := by
  induction p with
  | nil => rw [pieces]
  | cons c p ih =>
      exact pieces_cons (afterSeparator?_of_not_mem hp) (ih fun hmem => hp (by simp [hmem]))

/-- The piece before the first comma, whose end is trimmed. -/
theorem pieces_append_comma {p : Text} (hp : (',' : CodePoint) ∉ p) (rest : Text) :
    pieces (p ++ (',' : CodePoint) :: rest) = p.trimEnd :: pieces rest.trimStart := by
  induction p with
  | nil =>
      rcases afterSeparator?_append_comma hp rest with ⟨-, hafter⟩ | ⟨hblank, -⟩
      · exact pieces_of_separator hafter
      · exact absurd (fun _ => nofun) hblank
  | cons c p ih =>
      rcases afterSeparator?_append_comma hp rest with ⟨hblank, hafter⟩ | ⟨hblank, hafter⟩
      · rw [pieces_of_separator hafter, Text.trimEnd_eq_nil_iff.2 hblank]
      · rw [Text.trimEnd_cons hblank]
        exact pieces_cons hafter (ih fun hmem => hp (by simp [hmem]))

/-- A text has no comma, or a piece without one stands before its first comma. -/
@[elab_as_elim]
theorem comma_induction {motive : Text → Prop}
    (last : ∀ p : Text, (',' : CodePoint) ∉ p → motive p)
    (next : ∀ p rest : Text, (',' : CodePoint) ∉ p → motive rest →
      motive (p ++ (',' : CodePoint) :: rest)) (t : Text) : motive t := by
  by_cases hcomma : (',' : CodePoint) ∈ t
  · obtain ⟨p, rest, heq, hp⟩ := List.eq_append_cons_of_mem hcomma
    have hlength : rest.length < t.length := by
      rw [heq, List.length_append, List.length_cons]
      omega
    rw [heq]
    exact next p rest hp (comma_induction last next rest)
  · exact last t hcomma
termination_by t.length

/-- The pieces of a trimmed text are the pieces between its commas, each trimmed. -/
theorem pieces_trim (t : Text) : pieces t.trim = (t.splitOn (',' : CodePoint)).map Text.trim := by
  induction t using comma_induction with
  | last p hp =>
      rw [List.splitOn_eq_singleton hp,
        pieces_of_not_mem fun hmem => hp (Text.mem_of_mem_trim hmem)]
      rfl
  | next p rest hp ih =>
      have hstart : (',' : CodePoint) ∉ Text.trimStart p :=
        fun hmem => hp (Text.mem_of_mem_trimStart hmem)
      rw [List.splitOn_append_cons_self_of_not_mem hp, List.map_cons, ← ih,
        Text.trim_append_cons not_isBlank_comma, pieces_append_comma hstart,
        Text.trimStart_trimEnd]
      rfl

theorem not_mem_of_mem_splitOn {t piece : Text} (h : piece ∈ t.splitOn (',' : CodePoint)) :
    (',' : CodePoint) ∉ piece := by
  induction t using comma_induction with
  | last p hp =>
      rw [List.splitOn_eq_singleton hp] at h
      rwa [List.mem_singleton.1 h]
  | next p rest hp ih =>
      rw [List.splitOn_append_cons_self_of_not_mem hp] at h
      rcases List.mem_cons.1 h with rfl | hrest
      · exact hp
      · exact ih hrest

/-! ## The set of a text -/

/-- Does a piece name the integer? It does if, trimmed, it is a token with bounds around it. -/
def Names (piece : Text) (x : Int) : Prop :=
  ∃ first last : Nat, tokenBounds? piece.trim = some (first, last) ∧ (first : Int) ≤ x ∧ x ≤ last

/-- Does a piece name any integer? An empty or malformed piece does not, nor does a reversed one. -/
def namesAny (piece : Text) : Bool :=
  (tokenBounds? piece.trim).any fun bounds => bounds.1 ≤ bounds.2

theorem Names.namesAny {piece : Text} {x : Int} (h : Names piece x) : namesAny piece = true := by
  obtain ⟨first, last, hbounds, hx⟩ := h
  rw [UnicodeRange.namesAny, hbounds, Option.any_some, decide_eq_true_eq]
  show first ≤ last
  omega

theorem contains_parse {t : Text} {x : Int} :
    (parse t).contains x = true ↔ ∃ piece ∈ t.splitOn (',' : CodePoint), Names piece x := by
  rw [parse, CodeSet.ofItems_eq_ofList, CodeSet.contains_ofList, RangeList.mem_expand, pieces_trim]
  constructor
  · rintro ⟨item, hitem, hx⟩
    obtain ⟨piece, hpiece, hread⟩ := List.mem_filterMap.1 hitem
    obtain ⟨p, hp, rfl⟩ := List.mem_map.1 hpiece
    obtain ⟨bounds, hbounds, rfl⟩ := Option.map_eq_some_iff.1 hread
    exact ⟨p, hp, bounds.1, bounds.2, hbounds, hx⟩
  · rintro ⟨p, hp, first, last, hbounds, hx⟩
    refine ⟨.pair first last, List.mem_filterMap.2 ⟨Text.trim p, List.mem_map_of_mem hp, ?_⟩, hx⟩
    rw [hbounds]
    rfl

theorem contains_parse_intercalate {ps : List Text} (hps : ∀ p ∈ ps, (',' : CodePoint) ∉ p)
    {x : Int} :
    (parse ([(',' : CodePoint)].intercalate ps)).contains x = true ↔ ∃ p ∈ ps, Names p x := by
  rw [contains_parse]
  cases ps with
  | nil =>
      -- no pieces at all are written as the empty text, which has one piece
      rw [List.intercalate_nil, List.splitOn_nil]
      simp [Names, Text.trim, Text.trimStart, Text.trimEnd, tokenBounds?]
  | cons p ps => rw [List.splitOn_intercalate _ hps (by simp)]

/-- A text makes a set in which nothing is withdrawn, so its members are all there is to it. -/
theorem parse_eq_ofExtent {t : Text} {e : Extent}
    (h : ∀ x, (parse t).contains x = true ↔ e.contains x = true) : parse t = CodeSet.ofExtent e :=
  CodeSet.ext_members (fun x => Bool.eq_iff_iff.2 (h x)) fun _ => rfl

/-- **A text is read piece by piece.** Its pieces are what stands between the commas, trimmed, and
it describes the integers that the pieces name. So the pieces that name nothing can be left out, and
the set of two texts with a comma between them is the union of their sets. -/
theorem parse_piecewise :
    (∀ t : Text, pieces t.trim = (t.splitOn (',' : CodePoint)).map Text.trim)
      ∧ (∀ (t : Text) (x : Int), (parse t).contains x = true ↔
          ∃ piece ∈ t.splitOn (',' : CodePoint), Names piece x)
      ∧ (∀ t : Text, parse t
          = parse ([(',' : CodePoint)].intercalate
              ((t.splitOn (',' : CodePoint)).filter namesAny)))
      ∧ ∀ a b : Text, parse (a ++ (',' : CodePoint) :: b) = (parse a).union (parse b) := by
  refine ⟨pieces_trim, fun _ _ => contains_parse, fun t => parse_eq_ofExtent fun x => ?_,
    fun a b => parse_eq_ofExtent fun x => ?_⟩
  · have hfiltered : ∀ p ∈ (t.splitOn (',' : CodePoint)).filter namesAny, (',' : CodePoint) ∉ p :=
      fun p hp => not_mem_of_mem_splitOn (List.mem_filter.1 hp).1
    show _ ↔ (parse _).contains x = true
    rw [contains_parse, contains_parse_intercalate hfiltered]
    constructor
    · rintro ⟨p, hp, hnames⟩
      exact ⟨p, List.mem_filter.2 ⟨hp, hnames.namesAny⟩, hnames⟩
    · rintro ⟨p, hp, hnames⟩
      exact ⟨p, (List.mem_filter.1 hp).1, hnames⟩
  · rw [Extent.contains_union, Bool.or_eq_true]
    show _ ↔ (parse a).contains x = true ∨ (parse b).contains x = true
    rw [contains_parse, contains_parse, contains_parse, List.splitOn_append_cons_self]
    simp only [List.mem_append, or_and_right, exists_or]

end Repertoire.UnicodeRange
