import Libsbox.Mounts.Root

/-!
# libsbox — what the way of a path rests on

A lookup asks for the node at each location it passes: there is a directory, a
link with this target, or something that is no link. A kernel that has the same
answers leads the path to the same location (`walk_of_meets`). The directories
above the end of a lookup are among them (`above_needed`).

## Results

* `walk_meets`, `walk_of_meets` — a lookup and what it needs.
* `dir_above_found` — what is found lies in directories.
-/

namespace Libsbox

open CMemory Kernel

/-- What a lookup asks for at a location. -/
inductive Need where
  | dir (c : Location)
  | link (c : Location) (target : FsPath)
  | solid (c : Location)
  deriving DecidableEq

namespace Need

def location : Need → Location
  | dir c => c
  | link c _ => c
  | solid c => c

end Need

namespace Kernel

variable {k k' : Kernel}

def Meets (k : Kernel) : Need → Prop
  | .dir c => k.node c = some .dir
  | .link c target => k.node c = some (.symlink target)
  | .solid c => k.node c ≠ none ∧ ∀ target, k.node c ≠ some (.symlink target)

/-- The needs of one name; `ahead` are those of the target of a link. -/
def stepNeeds (ahead : Location → List Str → List Need) (k : Kernel) (c : Location) (name : Str) :
    List Need :=
  .dir c ::
    if name = [] ∨ name = lit "." ∨ name = lit ".." then []
    else
      match k.node (c ++ [name]) with
      | some (.symlink target) =>
        .link (c ++ [name]) target :: ahead (if target.absolute then [] else c) target.names
      | _ => [.solid (c ++ [name])]

def needsWith (follow : Location → List Str → Lookup) (ahead : Location → List Str → List Need)
    (k : Kernel) : Location → List Str → List Need
  | _, [] => []
  | c, name :: rest =>
    stepNeeds ahead k c name ++
      match k.stepWith follow c name with
      | .found c' => needsWith follow ahead k c' rest
      | _ => []

/-- The needs of a lookup from `c` on. -/
def needs (k : Kernel) : Nat → Location → List Str → List Need
  | 0 => needsWith (fun _ _ => .fail .loop) (fun _ _ => []) k
  | links + 1 => needsWith (k.walk links) (needs k links) k

-- ---------------------------------------------------------------------------
-- One name
-- ---------------------------------------------------------------------------

section

variable {follow follow' : Location → List Str → Lookup} {ahead : Location → List Str → List Need}
  {c c' : Location} {name : Str}

/-- What a step that leads somewhere has come by. -/
theorem stepWith_found_cases (h : k.stepWith follow c name = .found c') :
    k.node c = some .dir ∧
      (((name = [] ∨ name = lit ".") ∧ c' = c) ∨ (name = lit ".." ∧ c' = c.dropLast) ∨
        Plain name ∧
          ((∃ target, k.node (c ++ [name]) = some (.symlink target) ∧
              follow (if target.absolute then [] else c) target.names = .found c') ∨
            (k.node (c ++ [name]) ≠ none ∧
              (∀ target, k.node (c ++ [name]) ≠ some (.symlink target)) ∧ c' = c ++ [name]))) := by
  unfold stepWith at h
  split_ifs at h with hDir hStay hUp
  · exact ⟨not_not.mp hDir, .inl ⟨hStay, (Lookup.found.inj h).symm⟩⟩
  · exact ⟨not_not.mp hDir, .inr (.inl ⟨hUp, (Lookup.found.inj h).symm⟩)⟩
  · obtain ⟨hNil, hDot⟩ := not_or.mp hStay
    refine ⟨not_not.mp hDir, .inr (.inr ⟨⟨hNil, hDot, hUp⟩, ?_⟩)⟩
    cases hNode : k.node (c ++ [name]) with
    | none => simp [hNode] at h
    | some n =>
      rw [hNode] at h
      cases n with
      | symlink target =>
        refine .inl ⟨target, rfl, ?_⟩
        dsimp only at h
        split at h
        · cases h
        · cases h
        · exact h
      | _ => exact .inr ⟨by simp, by simp, (Lookup.found.inj h).symm⟩

theorem not_special (h : Plain name) : ¬ (name = [] ∨ name = lit "." ∨ name = lit "..") := by
  obtain ⟨hNil, hDot, hUp⟩ := h
  simp [hNil, hDot, hUp]

/-- A kernel meets the needs of its own steps. -/
theorem stepWith_meets
    (hAhead : ∀ c names c', follow c names = .found c' → ∀ need ∈ ahead c names, k.Meets need)
    (h : k.stepWith follow c name = .found c') : ∀ need ∈ stepNeeds ahead k c name, k.Meets need := by
  obtain ⟨hDir, hCases⟩ := stepWith_found_cases h
  intro need hNeed
  rcases List.mem_cons.mp hNeed with rfl | hNeed
  · exact hDir
  · rcases hCases with ⟨hStay, -⟩ | ⟨hUp, -⟩ | ⟨hPlain, hCases⟩
    · rw [if_pos (by tauto)] at hNeed
      cases hNeed
    · rw [if_pos (by tauto)] at hNeed
      cases hNeed
    · rw [if_neg (not_special hPlain)] at hNeed
      rcases hCases with ⟨target, hLink, hTo⟩ | ⟨hSome, hNot, -⟩
      · rw [hLink] at hNeed
        rcases List.mem_cons.mp hNeed with rfl | hNeed
        · exact hLink
        · exact hAhead _ _ _ hTo need hNeed
      · split at hNeed
        · next target hLink => exact absurd hLink (hNot target)
        · rw [List.mem_singleton.mp hNeed]
          exact ⟨hSome, hNot⟩

/-- Where its needs are met, a step leads to the same location. -/
theorem stepWith_of_meets
    (hAhead : ∀ c names c', follow c names = .found c' → (∀ need ∈ ahead c names, k'.Meets need) →
      follow' c names = .found c')
    (h : k.stepWith follow c name = .found c') (hMeets : ∀ need ∈ stepNeeds ahead k c name, k'.Meets need) :
    k'.stepWith follow' c name = .found c' := by
  obtain ⟨-, hCases⟩ := stepWith_found_cases h
  have hDir : k'.node c = some .dir := hMeets _ List.mem_cons_self
  unfold stepNeeds at hMeets
  rw [stepWith, if_neg (not_not.mpr hDir)]
  rcases hCases with ⟨hStay, rfl⟩ | ⟨rfl, rfl⟩ | ⟨hPlain, hCases⟩
  · rw [if_pos hStay]
  · rw [if_neg (by decide), if_pos rfl]
  · rw [if_neg (not_special hPlain)] at hMeets
    obtain ⟨hNil, hDot, hUp⟩ := hPlain
    rw [if_neg (by simp [hNil, hDot]), if_neg hUp]
    rcases hCases with ⟨target, hLink, hTo⟩ | ⟨hSome, hNot, rfl⟩
    · rw [hLink] at hMeets
      have hLink' : k'.node (c ++ [name]) = some (.symlink target) :=
        hMeets (.link (c ++ [name]) target) (by simp)
      have hTo' := hAhead _ _ _ hTo fun need hNeed =>
        hMeets need (List.mem_cons_of_mem _ (List.mem_cons_of_mem _ hNeed))
      simp only [hLink', hTo']
    · have hSolid : k'.Meets (.solid (c ++ [name])) := by
        refine hMeets _ (List.mem_cons_of_mem _ ?_)
        split
        · next target hLink => exact absurd hLink (hNot target)
        · exact List.mem_singleton_self _
      obtain ⟨hSome', hNot'⟩ := hSolid
      cases hNode : k'.node (c ++ [name]) with
      | none => exact absurd hNode hSome'
      | some n =>
        cases n with
        | symlink target => exact absurd hNode (hNot' target)
        | _ => rfl

end

-- ---------------------------------------------------------------------------
-- A whole way
-- ---------------------------------------------------------------------------

theorem walkWith_meets {follow : Location → List Str → Lookup}
    {ahead : Location → List Str → List Need}
    (hAhead : ∀ c names c', follow c names = .found c' → ∀ need ∈ ahead c names, k.Meets need) :
    ∀ {names : List Str} {c c' : Location}, k.walkWith follow c names = .found c' →
      ∀ need ∈ needsWith follow ahead k c names, k.Meets need
  | [], _, _, _ => by simp [needsWith]
  | name :: rest, c, c', h => by
    obtain ⟨mid, hStep, hRest⟩ := walkWith_cons_found.mp h
    rw [needsWith, hStep, List.forall_mem_append]
    exact ⟨stepWith_meets hAhead hStep, walkWith_meets hAhead hRest⟩

/-- A kernel meets the needs of its own lookups. -/
theorem walk_meets : ∀ {links : Nat} {names : List Str} {c c' : Location},
    k.walk links c names = .found c' → ∀ need ∈ k.needs links c names, k.Meets need
  | 0, _, _, _, h => walkWith_meets (fun _ _ _ hFail => by cases hFail) h
  | _ + 1, _, _, _, h => walkWith_meets (fun _ _ _ => walk_meets) h

theorem walkWith_of_meets {follow follow' : Location → List Str → Lookup}
    {ahead : Location → List Str → List Need}
    (hAhead : ∀ c names c', follow c names = .found c' → (∀ need ∈ ahead c names, k'.Meets need) →
      follow' c names = .found c') :
    ∀ {names : List Str} {c c' : Location}, k.walkWith follow c names = .found c' →
      (∀ need ∈ needsWith follow ahead k c names, k'.Meets need) →
      k'.walkWith follow' c names = .found c'
  | [], _, _, h, _ => h
  | name :: rest, c, c', h, hMeets => by
    obtain ⟨mid, hStep, hRest⟩ := walkWith_cons_found.mp h
    rw [needsWith, hStep, List.forall_mem_append] at hMeets
    exact walkWith_cons_found.mpr ⟨mid, stepWith_of_meets hAhead hStep hMeets.1,
      walkWith_of_meets hAhead hRest hMeets.2⟩

/-- Where the needs of a lookup are met, it leads to the same location. -/
theorem walk_of_meets : ∀ {links : Nat} {names : List Str} {c c' : Location},
    k.walk links c names = .found c' → (∀ need ∈ k.needs links c names, k'.Meets need) →
    k'.walk links c names = .found c'
  | 0, _, _, _, h, hMeets =>
    walkWith_of_meets (fun _ _ _ hFail _ => by cases hFail) h hMeets
  | _ + 1, _, _, _, h, hMeets => walkWith_of_meets (fun _ _ _ => walk_of_meets) h hMeets

-- ---------------------------------------------------------------------------
-- What lies above the end
-- ---------------------------------------------------------------------------

/-- Strictly above. -/
def Above (p c : Location) : Prop := p <+: c ∧ p ≠ c

instance (p c : Location) : Decidable (Above p c) := inferInstanceAs (Decidable (_ ∧ _))

theorem above_concat {p c : Location} {name : Str} (h : Above p (c ++ [name])) :
    p = c ∨ Above p c := by
  obtain ⟨hPrefix, hNe⟩ := h
  rcases List.prefix_concat_iff.mp hPrefix with hEq | hPrefix
  · exact absurd hEq hNe
  · by_cases hEq : p = c
    · exact .inl hEq
    · exact .inr ⟨hPrefix, hEq⟩

theorem above_dropLast {p c : Location} (h : Above p c.dropLast) : Above p c := by
  obtain ⟨hPrefix, hNe⟩ := h
  refine ⟨hPrefix.trans (List.dropLast_prefix c), fun hEq => hNe ?_⟩
  rw [hEq] at hPrefix ⊢
  exact hPrefix.eq_of_length_le (by simp)

section

variable {follow : Location → List Str → Lookup} {ahead : Location → List Str → List Need}

theorem stepWith_above_needed
    (hAhead : ∀ c names c', follow c names = .found c' → ∀ p, Above p c' →
      Above p c ∨ Need.dir p ∈ ahead c names)
    {c c' : Location} {name : Str} (h : k.stepWith follow c name = .found c') {p : Location}
    (hAbove : Above p c') : Above p c ∨ Need.dir p ∈ stepNeeds ahead k c name := by
  obtain ⟨-, hCases⟩ := stepWith_found_cases h
  unfold stepNeeds
  rcases hCases with ⟨-, rfl⟩ | ⟨-, rfl⟩ | ⟨hPlain, hCases⟩
  · exact .inl hAbove
  · exact .inl (above_dropLast hAbove)
  · rcases hCases with ⟨target, hLink, hTo⟩ | ⟨-, -, rfl⟩
    · rw [if_neg (not_special hPlain), hLink]
      rcases hAhead _ _ _ hTo p hAbove with hStart | hNeed
      · split at hStart
        · obtain ⟨hPrefix, hNe⟩ := hStart
          exact absurd (List.prefix_nil.mp hPrefix) hNe
        · exact .inl hStart
      · exact .inr (List.mem_cons_of_mem _ (List.mem_cons_of_mem _ hNeed))
    · rcases above_concat hAbove with rfl | hAbove
      · exact .inr List.mem_cons_self
      · exact .inl hAbove

theorem walkWith_above_needed
    (hAhead : ∀ c names c', follow c names = .found c' → ∀ p, Above p c' →
      Above p c ∨ Need.dir p ∈ ahead c names) :
    ∀ {names : List Str} {c c' : Location}, k.walkWith follow c names = .found c' →
      ∀ p, Above p c' → Above p c ∨ Need.dir p ∈ needsWith follow ahead k c names
  | [], c, c', h, p, hAbove => by
    obtain rfl := Lookup.found.inj h
    exact .inl hAbove
  | name :: rest, c, c', h, p, hAbove => by
    obtain ⟨mid, hStep, hRest⟩ := walkWith_cons_found.mp h
    rw [needsWith, hStep]
    rcases walkWith_above_needed hAhead hRest p hAbove with hMid | hNeed
    · exact (stepWith_above_needed hAhead hStep hMid).imp_right (List.mem_append_left _)
    · exact .inr (List.mem_append_right _ hNeed)

end

/-- Above the end of a lookup every location is one where it started or a directory
that it needs. -/
theorem above_needed : ∀ {links : Nat} {names : List Str} {c c' : Location},
    k.walk links c names = .found c' → ∀ p, Above p c' →
      Above p c ∨ Need.dir p ∈ k.needs links c names
  | 0, _, _, _, h => walkWith_above_needed (fun _ _ _ hFail => by cases hFail) h
  | _ + 1, _, _, _, h => walkWith_above_needed (fun _ _ _ => above_needed) h

theorem lookup_above_needed {path : FsPath} {c p : Location} (h : k.lookup path = .found c)
    (hAbove : Above p c) : Need.dir p ∈ k.needs 40 [] path.names := by
  rcases above_needed h p hAbove with ⟨hPrefix, hNe⟩ | hNeed
  · exact absurd (List.prefix_nil.mp hPrefix) hNe
  · exact hNeed

/-- What is found lies in directories. -/
theorem dir_above_found {path : FsPath} {c p : Location} (h : k.lookup path = .found c)
    (hAbove : Above p c) : k.node p = some .dir :=
  walk_meets h _ (lookup_above_needed h hAbove)

end Kernel

end Libsbox
