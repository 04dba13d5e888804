import Mathlib.Data.List.Basic

/-!
# Piles

Things that lie on each other at places, newest first. Places can depend on each
other; a thing can be taken only when it is the newest one at its place and no
newer thing lies at a place that depends on it.

`popAll_eq_some_iff` says when a sequence of places takes exactly the newest
things away: at any two dependent places, the sequence visits them in the order
in which the things lie there.
-/

namespace Pile

variable {α κ : Type} [DecidableEq κ] (key : α → κ) (dep : κ → κ → Prop) [DecidableRel dep]

/-- Take the newest thing at the place `u`. -/
def pop (u : κ) : List α → Option (List α)
  | [] => none
  | x :: pile =>
    if key x = u then some pile
    else if dep (key x) u then none
    else (pop u pile).map (x :: ·)

/-- Take the newest thing at each of the places in turn. -/
def popAll : List κ → List α → Option (List α)
  | [], pile => some pile
  | u :: us, pile => (pop key dep u pile).bind (popAll us)

/-- The part of a sequence of places that visits `a` or `b`. -/
def visits (a b : κ) (us : List κ) : List κ := us.filter fun u => u = a ∨ u = b

/-- Both sequences visit any two dependent places in the same order. -/
def SameVisits (us vs : List κ) : Prop := ∀ a b, dep a b → visits a b us = visits a b vs

theorem visits_append (a b : κ) (us vs : List κ) :
    visits a b (us ++ vs) = visits a b us ++ visits a b vs :=
  List.filter_append ..

theorem visits_cons (a b u : κ) (us : List κ) :
    visits a b (u :: us) = visits a b [u] ++ visits a b us :=
  visits_append a b [u] us

theorem visits_eq_nil {a b : κ} {us : List κ} (h : ∀ u ∈ us, u ≠ a ∧ u ≠ b) :
    visits a b us = [] := by
  rw [visits, List.filter_eq_nil_iff]
  intro u hu
  simpa using h u hu

variable {key dep}

/-- What `pop` takes: a thing with nothing dependent above it. -/
theorem pop_eq_some_iff {u : κ} {pile rest : List α} :
    pop key dep u pile = some rest ↔
      ∃ above x below, pile = above ++ x :: below ∧ rest = above ++ below ∧ key x = u ∧
        ∀ y ∈ above, key y ≠ u ∧ ¬ dep (key y) u := by
  induction pile generalizing rest with
  | nil => simp [pop]
  | cons z pile ih =>
    rw [pop]
    split_ifs with hKey hDep
    · constructor
      · rintro ⟨⟩
        exact ⟨[], z, pile, rfl, rfl, hKey, by simp⟩
      · rintro ⟨above, x, below, hPile, rfl, hx, hAbove⟩
        cases above with
        | nil => simp_all
        | cons y above =>
          obtain ⟨rfl, -⟩ : z = y ∧ pile = above ++ x :: below := by simpa using hPile
          exact absurd hKey (hAbove z List.mem_cons_self).1
    · simp only [false_iff]
      rintro ⟨above, x, below, hPile, -, hx, hAbove⟩
      cases above with
      | nil => simp_all
      | cons y above =>
        obtain ⟨rfl, -⟩ : z = y ∧ pile = above ++ x :: below := by simpa using hPile
        exact (hAbove z List.mem_cons_self).2 hDep
    · rw [Option.map_eq_some_iff]
      constructor
      · rintro ⟨rest', hPop, rfl⟩
        obtain ⟨above, x, below, rfl, rfl, hx, hAbove⟩ := ih.mp hPop
        refine ⟨z :: above, x, below, rfl, rfl, hx, ?_⟩
        rintro y (_ | ⟨_, hy⟩)
        · exact ⟨hKey, hDep⟩
        · exact hAbove y hy
      · rintro ⟨above, x, below, hPile, rfl, hx, hAbove⟩
        cases above with
        | nil => simp_all
        | cons y above =>
          obtain ⟨rfl, rfl⟩ : z = y ∧ pile = above ++ x :: below := by simpa using hPile
          exact ⟨above ++ below, ih.mpr ⟨above, x, below, rfl, rfl, hx,
            fun w hw => hAbove w (List.mem_cons_of_mem _ hw)⟩, rfl⟩

/-- What lies further down does not matter to a thing that can be taken. -/
theorem pop_append {u : κ} {pile rest : List α} (h : pop key dep u pile = some rest)
    (base : List α) : pop key dep u (pile ++ base) = some (rest ++ base) := by
  obtain ⟨above, x, below, rfl, rfl, hx, hAbove⟩ := pop_eq_some_iff.mp h
  exact pop_eq_some_iff.mpr ⟨above, x, below ++ base, by simp, by simp, hx, hAbove⟩

theorem popAll_append (us vs : List κ) : ∀ pile : List α,
    popAll key dep (us ++ vs) pile = (popAll key dep us pile).bind (popAll key dep vs) := by
  induction us with
  | nil => exact fun _ => rfl
  | cons u us ih =>
    intro pile
    rw [List.cons_append, popAll, popAll, Option.bind_assoc]
    exact congrArg _ (funext ih)

/-- Under a thing that is left, what it depends on lies as it did when nothing had
been taken: to be taken, it would have had to be free of that thing. -/
theorem below_of_pop {u : κ} {pile rest : List α} (h : pop key dep u pile = some rest)
    (hSymm : ∀ a b, dep a b → dep b a) {above below : List α} {x : α}
    (hRest : rest = above ++ x :: below) :
    ∃ above' below', pile = above' ++ x :: below' ∧
      below.filter (fun y => dep (key y) (key x)) = below'.filter fun y => dep (key y) (key x) := by
  obtain ⟨top, taken, bottom, rfl, hSplit, rfl, hTop⟩ := pop_eq_some_iff.mp h
  rw [hRest] at hSplit
  rcases List.append_eq_append_iff.mp hSplit with ⟨further, rfl, hBelow⟩ | ⟨further, rfl, hBottom⟩
  · cases further with
    | nil =>
      rw [List.nil_append] at hBelow
      exact ⟨above ++ [taken], below, by simp [← hBelow], rfl⟩
    | cons z further =>
      obtain ⟨rfl, rfl⟩ := List.cons.inj hBelow
      refine ⟨above, further ++ taken :: bottom, by simp, ?_⟩
      have hNot : ¬ dep (key taken) (key x) := fun hDep =>
        (hTop x (by simp)).2 (hSymm _ _ hDep)
      simp [List.filter_append, hNot]
  · exact ⟨top ++ taken :: further, below, by simp [hBottom], rfl⟩

theorem below_of_popAll (hSymm : ∀ a b, dep a b → dep b a) :
    ∀ {us : List κ} {pile rest : List α}, popAll key dep us pile = some rest →
      ∀ {above below : List α} {x : α}, rest = above ++ x :: below →
        ∃ above' below', pile = above' ++ x :: below' ∧
          below.filter (fun y => dep (key y) (key x)) = below'.filter fun y => dep (key y) (key x)
  | [], pile, rest, h, above, below, x, hRest => by
    obtain rfl := Option.some.inj h
    exact ⟨above, below, hRest, rfl⟩
  | u :: us, pile, rest, h, above, below, x, hRest => by
    obtain ⟨mid, hPop, hPops⟩ := Option.bind_eq_some_iff.mp h
    obtain ⟨above₁, below₁, hMid, hFilter₁⟩ := below_of_popAll hSymm hPops hRest
    obtain ⟨above₂, below₂, hPile, hFilter₂⟩ := below_of_pop hPop hSymm hMid
    exact ⟨above₂, below₂, hPile, hFilter₁.trans hFilter₂⟩

/-- A thing that is taken leads the visits of its place and those that depend on it. -/
theorem visits_of_pop (hSymm : ∀ a b, dep a b → dep b a) {u : κ} {pile rest : List α}
    (h : pop key dep u pile = some rest) {a b : κ} (hDep : dep a b) :
    visits a b (pile.map key) = visits a b [u] ++ visits a b (rest.map key) := by
  obtain ⟨above, x, below, rfl, rfl, rfl, hAbove⟩ := pop_eq_some_iff.mp h
  simp only [List.map_append, List.map_cons, visits_append]
  rw [visits_cons a b (key x) (below.map key)]
  by_cases hVisit : key x = a ∨ key x = b
  · have hNone : visits a b (above.map key) = [] := by
      refine visits_eq_nil fun v hv => ?_
      obtain ⟨y, hy, rfl⟩ := List.mem_map.mp hv
      obtain ⟨hNe, hNotDep⟩ := hAbove y hy
      rcases hVisit with hVisit | hVisit
      · exact ⟨fun hya => hNe (hya.trans hVisit.symm),
          fun hyb => hNotDep (by rw [hyb, hVisit]; exact hSymm a b hDep)⟩
      · exact ⟨fun hya => hNotDep (by rw [hya, hVisit]; exact hDep),
          fun hyb => hNe (hyb.trans hVisit.symm)⟩
    simp [hNone]
  · have hNone : visits a b [key x] = [] := visits_eq_nil fun v hv => by
      obtain rfl := List.mem_singleton.mp hv
      exact not_or.mp hVisit
    simp [hNone]

theorem visits_of_popAll (hSymm : ∀ a b, dep a b → dep b a) {a b : κ} (hDep : dep a b) :
    ∀ {us : List κ} {pile rest : List α}, popAll key dep us pile = some rest →
      visits a b (pile.map key) = visits a b us ++ visits a b (rest.map key)
  | [], pile, rest, h => by
    obtain rfl := Option.some.inj h
    simp [visits]
  | u :: us, pile, rest, h => by
    obtain ⟨mid, hPop, hRest⟩ := Option.bind_eq_some_iff.mp h
    rw [visits_of_pop hSymm hPop hDep, visits_of_popAll hSymm hDep hRest, visits_cons a b u us,
      List.append_assoc]

/-- The place that leads its own visits can be popped. -/
theorem pop_of_visits (hRefl : ∀ a, dep a a) {u : κ} {us : List κ} {new : List α}
    (h : SameVisits dep (u :: us) (new.map key)) :
    ∃ rest, ∀ base, pop key dep u (new ++ base) = some (rest ++ base) := by
  have hLead : visits u u (new.map key) = u :: visits u u us := by
    rw [← h u u (hRefl u)]
    simp [visits]
  have hMem : ∃ x ∈ new, dep (key x) u := by
    have hu : u ∈ visits u u (new.map key) := by simp [hLead]
    obtain ⟨x, hx, hxu⟩ := List.mem_map.mp (List.mem_filter.mp hu).1
    exact ⟨x, hx, hxu ▸ hRefl _⟩
  -- the newest thing on which `u` depends lies at `u`
  obtain ⟨above, x, below, rfl, hx, hAbove⟩ :
      ∃ above x below, new = above ++ x :: below ∧ dep (key x) u ∧
        ∀ y ∈ above, ¬ dep (key y) u := by
    obtain ⟨x, hx⟩ := Option.isSome_iff_exists.mp
      (show (new.find? fun x => dep (key x) u).isSome by simpa using hMem)
    obtain ⟨hDep, above, below, hNew, hNot⟩ := List.find?_eq_some_iff_append.mp hx
    exact ⟨above, x, below, hNew, by simpa using hDep, fun y hy => by simpa using hNot y hy⟩
  have hKey : key x = u := by
    have hPair := h (key x) u hx
    have hNone : visits (key x) u (above.map key) = [] ∨ ∃ y ∈ above, key y = key x := by
      by_cases hEx : ∃ y ∈ above, key y = key x
      · exact .inr hEx
      · refine .inl (visits_eq_nil fun v hv => ?_)
        obtain ⟨y, hy, rfl⟩ := List.mem_map.mp hv
        exact ⟨fun he => hEx ⟨y, hy, he⟩, fun he => hAbove y hy (he ▸ hRefl _)⟩
    rcases hNone with hNone | ⟨y, hy, hyx⟩
    · rw [List.map_append, List.map_cons, visits_append, hNone] at hPair
      simpa [visits] using (List.cons.inj (by simpa [visits] using hPair)).1.symm
    · exact absurd (hyx ▸ hx) (hAbove y hy)
  refine ⟨above ++ below, fun base =>
    pop_eq_some_iff.mpr ⟨above, x, below ++ base, ?_, ?_, hKey, ?_⟩⟩
  · simp
  · simp
  · exact fun y hy => ⟨fun he => hAbove y hy (he ▸ hRefl _), hAbove y hy⟩

/-- **Cancellation.** Popping `us` takes exactly the things `new` off the pile if
and only if it visits dependent places in the order in which they lie there. -/
theorem popAll_eq_some_iff (hRefl : ∀ a, dep a a) (hSymm : ∀ a b, dep a b → dep b a) (us : List κ)
    (new base : List α) :
    popAll key dep us (new ++ base) = some base ↔ SameVisits dep us (new.map key) := by
  constructor
  · intro h a b hDep
    have hVisits := visits_of_popAll hSymm hDep h
    rw [List.map_append, visits_append] at hVisits
    exact (List.append_cancel_right hVisits).symm
  · intro h
    induction us generalizing new with
    | nil =>
      cases new with
      | nil => rfl
      | cons x new =>
        have hx := h (key x) (key x) (hRefl _)
        simp [visits] at hx
    | cons u us ih =>
      obtain ⟨rest, hPop⟩ := pop_of_visits hRefl h
      rw [popAll, hPop base, Option.bind_some]
      refine ih rest fun a b hDep => ?_
      have hNew := visits_of_pop hSymm (by simpa using hPop []) hDep
      have hSame := h a b hDep
      rw [visits_cons a b u us, hNew] at hSame
      exact List.append_cancel_left hSame

omit [DecidableRel dep] in
/-- Sequences with the same visits have the same places, as often. -/
theorem SameVisits.perm (hRefl : ∀ a, dep a a) {us vs : List κ} (h : SameVisits dep us vs) :
    us.Perm vs := by
  refine List.perm_iff_count.mpr fun a => ?_
  have hCount : ∀ ws : List κ, ws.count a = (visits a a ws).length := by
    intro ws
    rw [visits, List.count_eq_length_filter]
    congr 1
    refine List.filter_congr fun w _ => ?_
    simp [Bool.beq_eq_decide_eq]
  rw [hCount, hCount, h a a (hRefl a)]

omit [DecidableRel dep] in
/-- Only the places of the two sequences count. -/
theorem sameVisits_iff (hRefl : ∀ a, dep a a) {us vs : List κ} :
    SameVisits dep us vs ↔
      ∀ a ∈ us ++ vs, ∀ b ∈ us ++ vs, dep a b → visits a b us = visits a b vs := by
  refine ⟨fun h a _ b _ => h a b, fun h a b hDep => ?_⟩
  have hAbsent : ∀ c, c ∉ us ++ vs → ∀ u ∈ us ++ vs, u ≠ c := fun c hc u hu hEq => hc (hEq ▸ hu)
  by_cases ha : a ∈ us ++ vs
  · by_cases hb : b ∈ us ++ vs
    · exact h a ha b hb hDep
    · -- nothing is at `b`
      have hSame : ∀ ws, (∀ w ∈ ws, w ∈ us ++ vs) → visits a b ws = visits a a ws := by
        intro ws hws
        refine List.filter_congr fun w hw => ?_
        simp [hAbsent b hb w (hws w hw)]
      rw [hSame us fun _ => List.mem_append_left _, hSame vs fun _ => List.mem_append_right _]
      exact h a ha a ha (hRefl a)
  · have hSame : ∀ ws, (∀ w ∈ ws, w ∈ us ++ vs) → visits a b ws = visits b b ws := by
      intro ws hws
      refine List.filter_congr fun w hw => ?_
      simp [hAbsent a ha w (hws w hw)]
    rw [hSame us fun _ => List.mem_append_left _, hSame vs fun _ => List.mem_append_right _]
    by_cases hb : b ∈ us ++ vs
    · exact h b hb b hb (hRefl b)
    · have hNil : ∀ ws, (∀ w ∈ ws, w ∈ us ++ vs) → visits b b ws = [] := fun ws hws =>
        visits_eq_nil fun w hw => ⟨hAbsent b hb w (hws w hw), hAbsent b hb w (hws w hw)⟩
      rw [hNil us fun _ => List.mem_append_left _, hNil vs fun _ => List.mem_append_right _]

end Pile
