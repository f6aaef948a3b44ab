import Mathlib.Data.List.Induction
import Mathlib.Data.List.Nodup
import Repertoire.Gather
import Repertoire.Proofs.Lists

/-!
# What gathering collects

Filing a value either extends the one group of its key or opens a group that was not there
(`file_cases`); nothing else happens. From this step the groups of a whole list follow: each key has
one group (`nodup_keys_gather`), and the group holds the values of its key (`mem_group_iff`). The
groups stand in the order in which their keys were first seen (`keys_gather`, `pairwise_gather`). How
the keys are spelled is of no importance, as long as different keys have different spellings
(`gather_map`).
-/

namespace Repertoire

variable {κ ν : Type}

/-- Does the group of the key hold the value? -/
def Holds (groups : List (κ × List ν)) (key : κ) (value : ν) : Prop :=
  ∃ values, (key, values) ∈ groups ∧ value ∈ values

section Filing

variable [DecidableEq κ]

theorem file?_eq_some {key : κ} {value : ν} :
    ∀ {groups filed : List (κ × List ν)}, file? key value groups = some filed →
      ∃ front values back, groups = front ++ (key, values) :: back
        ∧ filed = front ++ (key, value :: values) :: back
  | [], _, h => by simp [file?] at h
  | (k, values) :: groups, filed, h => by
      rw [file?] at h
      split at h
      · rename_i hk
        subst hk
        exact ⟨[], values, groups, rfl, (Option.some.inj h).symm⟩
      · obtain ⟨rest, hrest, rfl⟩ := Option.map_eq_some_iff.1 h
        obtain ⟨front, vs, back, rfl, rfl⟩ := file?_eq_some hrest
        exact ⟨(k, values) :: front, vs, back, rfl, rfl⟩

theorem file?_eq_none {key : κ} {value : ν} :
    ∀ {groups : List (κ × List ν)}, file? key value groups = none →
      key ∉ groups.map Prod.fst
  | [], _ => by simp
  | (k, values) :: groups, h => by
      rw [file?] at h
      split at h
      · cases h
      · rename_i hk
        have hrest := file?_eq_none (Option.map_eq_none_iff.1 h)
        simp only [List.map_cons, List.mem_cons, not_or]
        exact ⟨fun heq => hk heq.symm, hrest⟩

/-- All that filing can do: it adds to the group of the key, or opens the group. -/
theorem file_cases (groups : List (κ × List ν)) (key : κ) (value : ν) :
    (∃ front values back, groups = front ++ (key, values) :: back
      ∧ file groups (key, value) = front ++ (key, value :: values) :: back)
    ∨ (key ∉ groups.map Prod.fst ∧ file groups (key, value) = (key, [value]) :: groups) := by
  unfold file
  cases hfile : file? key value groups with
  | some filed => exact Or.inl (by simpa [hfile] using file?_eq_some hfile)
  | none => exact Or.inr ⟨file?_eq_none hfile, by simp⟩

theorem keys_file (groups : List (κ × List ν)) (key : κ) (value : ν) :
    (file groups (key, value)).map Prod.fst
      = if key ∈ groups.map Prod.fst then groups.map Prod.fst
        else key :: groups.map Prod.fst := by
  rcases file_cases groups key value with ⟨front, values, back, rfl, hfile⟩ | ⟨hnew, hfile⟩
  · rw [hfile, if_pos (by simp)]
    simp
  · rw [hfile, if_neg hnew]
    rfl

theorem holds_file {groups : List (κ × List ν)} {key k : κ} {value v : ν} :
    Holds (file groups (key, value)) k v ↔ Holds groups k v ∨ (k, v) = (key, value) := by
  rcases file_cases groups key value with ⟨front, values, back, rfl, hfile⟩ | ⟨-, hfile⟩
  · rw [hfile]
    simp only [Holds, List.mem_append, List.mem_cons, Prod.mk.injEq]
    constructor
    · rintro ⟨vs, hf | ⟨rfl, rfl⟩ | hb, hv⟩
      · exact Or.inl ⟨vs, Or.inl hf, hv⟩
      · rcases List.mem_cons.1 hv with rfl | hv
        · exact Or.inr ⟨rfl, rfl⟩
        · exact Or.inl ⟨values, Or.inr (Or.inl ⟨rfl, rfl⟩), hv⟩
      · exact Or.inl ⟨vs, Or.inr (Or.inr hb), hv⟩
    · rintro (⟨vs, hf | ⟨rfl, rfl⟩ | hb, hv⟩ | ⟨rfl, rfl⟩)
      · exact ⟨vs, Or.inl hf, hv⟩
      · exact ⟨value :: vs, Or.inr (Or.inl ⟨rfl, rfl⟩), List.mem_cons_of_mem _ hv⟩
      · exact ⟨vs, Or.inr (Or.inr hb), hv⟩
      · exact ⟨v :: values, Or.inr (Or.inl ⟨rfl, rfl⟩), List.mem_cons_self⟩
  · rw [hfile]
    simp only [Holds, List.mem_cons, Prod.mk.injEq]
    constructor
    · rintro ⟨vs, ⟨rfl, rfl⟩ | hmem, hv⟩
      · exact Or.inr ⟨rfl, List.mem_singleton.1 hv⟩
      · exact Or.inl ⟨vs, hmem, hv⟩
    · rintro (⟨vs, hmem, hv⟩ | ⟨rfl, rfl⟩)
      · exact ⟨vs, Or.inr hmem, hv⟩
      · exact ⟨[v], Or.inl ⟨rfl, rfl⟩, List.mem_singleton.2 rfl⟩

theorem inhabited_file {groups : List (κ × List ν)} (key : κ) (value : ν)
    (h : ∀ group ∈ groups, group.2 ≠ []) :
    ∀ group ∈ file groups (key, value), group.2 ≠ [] := by
  intro group hgroup
  rcases file_cases groups key value with ⟨front, values, back, rfl, hfile⟩ | ⟨-, hfile⟩
  · rw [hfile] at hgroup
    rcases List.mem_append.1 hgroup with hf | hb
    · exact h group (by simp [hf])
    · rcases List.mem_cons.1 hb with rfl | hb
      · exact List.cons_ne_nil _ _
      · exact h group (by simp [hb])
  · rw [hfile] at hgroup
    rcases List.mem_cons.1 hgroup with rfl | hgroup
    · exact List.cons_ne_nil _ _
    · exact h group hgroup

end Filing

/-! ## All entries

The induction is on how many entries have been filed, so the list of entries grows at its end. -/

section Gathering

variable [DecidableEq κ] (entries : List (κ × ν))

theorem holds_gather {key : κ} {value : ν} :
    Holds (gather entries) key value ↔ (key, value) ∈ entries := by
  have hfold : Holds (entries.foldl file []) key value ↔ (key, value) ∈ entries := by
    induction entries using List.reverseRecOn with
    | nil => simp [Holds]
    | append_singleton entries entry ih =>
        rw [List.foldl_append, List.foldl_cons, List.foldl_nil, holds_file, ih,
          List.mem_append, List.mem_singleton]
  rw [← hfold]
  simp [Holds, gather]

theorem nodup_keys_gather : ((gather entries).map Prod.fst).Nodup := by
  rw [gather, List.map_reverse, List.nodup_reverse]
  induction entries using List.reverseRecOn with
  | nil => exact List.nodup_nil
  | append_singleton entries entry ih =>
      rw [List.foldl_append, List.foldl_cons, List.foldl_nil, keys_file]
      split
      · exact ih
      · rename_i hnew
        exact List.nodup_cons.2 ⟨hnew, ih⟩

theorem inhabited_gather : ∀ group ∈ gather entries, group.2 ≠ [] := by
  have hfold : ∀ group ∈ entries.foldl file [], group.2 ≠ [] := by
    induction entries using List.reverseRecOn with
    | nil => simp
    | append_singleton entries entry ih =>
        rw [List.foldl_append]
        exact inhabited_file entry.1 entry.2 ih
  exact fun group hgroup => hfold group (List.mem_reverse.1 hgroup)

theorem mem_group_iff {key : κ} {values : List ν} (h : (key, values) ∈ gather entries)
    {value : ν} : value ∈ values ↔ (key, value) ∈ entries := by
  rw [← holds_gather]
  constructor
  · exact fun hv => ⟨values, h, hv⟩
  · rintro ⟨others, hothers, hv⟩
    have hsame := List.inj_on_of_nodup_map (nodup_keys_gather entries) h hothers rfl
    rw [(Prod.mk.inj hsame).2]
    exact hv

end Gathering

/-! ## The order of the groups -/

section Order

variable [DecidableEq κ] {entries : List (κ × ν)}

/-- Another entry extends the group of its key in its place, or opens a group at the end. -/
theorem gather_append_cases (entries : List (κ × ν)) (key : κ) (value : ν) :
    (∃ front values back, gather entries = front ++ (key, values) :: back
      ∧ gather (entries ++ [(key, value)]) = front ++ (key, value :: values) :: back)
    ∨ gather (entries ++ [(key, value)]) = gather entries ++ [(key, [value])] := by
  have hstep : gather (entries ++ [(key, value)])
      = (file (entries.foldl file []) (key, value)).reverse := by
    rw [gather, List.foldl_append]
    rfl
  rw [hstep, gather]
  rcases file_cases (entries.foldl file []) key value
    with ⟨front, values, back, hgroups, hfile⟩ | ⟨-, hfile⟩
  · refine Or.inl ⟨back.reverse, values, front.reverse, ?_, ?_⟩
    · rw [hgroups]
      simp
    · rw [hfile]
      simp
  · rw [hfile, List.reverse_cons]
    exact Or.inr rfl

/-- A key stands where it was first seen. -/
theorem keys_gather (entries : List (κ × ν)) :
    (gather entries).map Prod.fst = (entries.map Prod.fst).eraseDups := by
  rw [gather, List.map_reverse]
  induction entries using List.reverseRecOn with
  | nil => rfl
  | append_singleton entries entry ih =>
      have hseen : entry.1 ∈ (entries.foldl file []).map Prod.fst ↔
          entry.1 ∈ entries.map Prod.fst := by
        rw [← List.mem_reverse, ih, List.mem_eraseDups]
      rw [List.foldl_append, List.foldl_cons, List.foldl_nil, keys_file, List.map_append,
        List.map_singleton, eraseDups_concat, ← ih]
      by_cases hkey : entry.1 ∈ entries.map Prod.fst
      · rw [if_pos hkey, if_pos (hseen.2 hkey)]
      · rw [if_neg hkey, if_neg (mt hseen.1 hkey), List.reverse_cons]

/-- Of two groups, the one that stands first has a value that was seen before all values of the
other one. So what relates every entry to the later ones relates it to them. -/
theorem pairwise_gather {R : κ × ν → κ × ν → Prop} (h : entries.Pairwise R) :
    (gather entries).Pairwise fun group group' =>
      ∃ v ∈ group.2, ∀ v' ∈ group'.2, R (group.1, v) (group'.1, v') := by
  induction entries using List.reverseRecOn with
  | nil => exact List.Pairwise.nil
  | append_singleton entries entry ih =>
      obtain ⟨key, value⟩ := entry
      obtain ⟨hentries, -, hlast⟩ := List.pairwise_append.1 h
      have hbefore : ∀ group ∈ gather entries, ∀ v ∈ group.2, R (group.1, v) (key, value) :=
        fun group hgroup v hv => hlast _ ((mem_group_iff entries hgroup).1 hv) _ (by simp)
      have hgroups := ih hentries
      rcases gather_append_cases entries key value
        with ⟨front, values, back, hgather, hnext⟩ | hnext
      · rw [hgather] at hgroups hbefore
        rw [hnext]
        rw [List.pairwise_append, List.pairwise_cons] at hgroups ⊢
        obtain ⟨hfront, ⟨hkey, hback⟩, hcross⟩ := hgroups
        refine ⟨hfront, ⟨fun group' hgroup' => ?_, hback⟩, fun group hgroup group' hgroup' => ?_⟩
        · obtain ⟨v, hv, hall⟩ := hkey group' hgroup'
          exact ⟨v, List.mem_cons_of_mem _ hv, hall⟩
        · rcases List.mem_cons.1 hgroup' with rfl | hmem
          · obtain ⟨v, hv, hall⟩ := hcross group hgroup (key, values) List.mem_cons_self
            refine ⟨v, hv, List.forall_mem_cons.2 ⟨?_, hall⟩⟩
            exact hbefore group (List.mem_append_left _ hgroup) v hv
          · exact hcross group hgroup group' (List.mem_cons_of_mem _ hmem)
      · rw [hnext]
        refine List.pairwise_append.2 ⟨hgroups, List.pairwise_singleton _ _, ?_⟩
        intro group hgroup group' hgroup'
        obtain rfl := List.mem_singleton.1 hgroup'
        obtain ⟨v, hv⟩ := List.exists_mem_of_ne_nil _ (inhabited_gather entries group hgroup)
        exact ⟨v, hv, List.forall_mem_singleton.2 (hbefore group hgroup v hv)⟩

end Order

/-! ## Spelling the keys in another way -/

section Spelling

variable {κ' : Type} [DecidableEq κ] [DecidableEq κ']

theorem file?_map {spell : κ → κ'} {key : κ} (value : ν) :
    ∀ groups : List (κ × List ν),
      (∀ group ∈ groups, spell group.1 = spell key → group.1 = key) →
      file? (spell key) value (groups.map fun group => (spell group.1, group.2))
        = (file? key value groups).map (List.map fun group => (spell group.1, group.2))
  | [], _ => rfl
  | (k, values) :: groups, hinj => by
      have ih := file?_map value groups fun group hgroup =>
        hinj group (List.mem_cons_of_mem _ hgroup)
      rw [List.map_cons, file?, file?]
      by_cases hk : k = key
      · rw [if_pos hk, if_pos (congrArg spell hk)]
        rfl
      · rw [if_neg hk, if_neg fun heq => hk (hinj _ List.mem_cons_self heq), ih, Option.map_map,
          Option.map_map]
        rfl

theorem file_map {spell : κ → κ'} {groups : List (κ × List ν)} {key : κ} (value : ν)
    (hinj : ∀ group ∈ groups, spell group.1 = spell key → group.1 = key) :
    file (groups.map fun group => (spell group.1, group.2)) (spell key, value)
      = (file groups (key, value)).map fun group => (spell group.1, group.2) := by
  unfold file
  rw [file?_map value groups hinj]
  cases file? key value groups <;> rfl

/-- Gathering by the spelling of a key is gathering by the key. -/
theorem gather_map {spell : κ → κ'} (entries : List (κ × ν))
    (hinj : ∀ e ∈ entries, ∀ e' ∈ entries, spell e.1 = spell e'.1 → e.1 = e'.1) :
    gather (entries.map fun entry => (spell entry.1, entry.2))
      = (gather entries).map fun group => (spell group.1, group.2) := by
  have hkeys : ∀ entries : List (κ × ν), ∀ group ∈ entries.foldl file [],
      ∃ entry ∈ entries, entry.1 = group.1 := by
    intro entries group hgroup
    have hmem := List.mem_reverse.2 hgroup
    obtain ⟨value, hvalue⟩ := List.exists_mem_of_ne_nil _ (inhabited_gather entries group hmem)
    exact ⟨(group.1, value), (mem_group_iff entries hmem).1 hvalue, rfl⟩
  have hfold : (entries.map fun entry => (spell entry.1, entry.2)).foldl file []
      = (entries.foldl file []).map fun group => (spell group.1, group.2) := by
    induction entries using List.reverseRecOn with
    | nil => rfl
    | append_singleton entries entry ih =>
        have hold := ih fun e he e' he' => hinj e (by simp [he]) e' (by simp [he'])
        rw [List.map_append, List.foldl_append, hold, List.foldl_append]
        refine file_map entry.2 fun group hgroup heq => ?_
        obtain ⟨e, he, hkey⟩ := hkeys entries group hgroup
        rw [← hkey] at heq ⊢
        exact hinj e (by simp [he]) entry (by simp) heq
  rw [gather, gather, hfold, List.map_reverse]

end Spelling

end Repertoire
