import Retrace.Proofs.Trace.Runs

/-!
# What walks keep

A property that visits keep is one that walks keep. Walks that differ in their caches alone go the
same way.
-/

namespace Retrace

namespace Walk

/-- Neither an address without an instruction, nor a visit, nor a new count ends the property. -/
structure Kept (t : Terrain) (P : Walk → Prop) : Prop where
  obstacle : ∀ w a o cache, w.cache.fetch t.image a = (.error o, cache) → P w → P { w with cache }
  visit : ∀ w a site cache, w.budget ≠ 0 → w.cache.fetch t.image a = (.ok site, cache) → P w →
    P ({ w with cache }.visit t a site)
  count : ∀ w, P w → P { w with retired := 0 }

/-- The walks differ in their caches alone, which hold only what the image gives. -/
structure Alike (image : Image) (w w' : Walk) : Prop where
  eq : w' = { w with cache := w'.cache }
  sites : w.cache.Valid image
  sites' : w'.cache.Valid image

end Walk

/-- The outcomes differ in the caches of their walks alone. -/
structure Outcome.Alike (image : Image) (o o' : Outcome) : Prop where
  result : o.1 = o'.1
  walk : o.2.Alike image o'.2

variable {t : Terrain} {P : Walk → Prop} {w w' : Walk} {s : Stop} {a : UInt64} {count : Nat}
  {payload : Payload} {o o' : Outcome}

/-! ## Properties that visits keep -/

namespace Walk.Kept

theorem run (h : Kept t P) (hw : P w) : P (w.run t a).2 := by
  fun_induction Walk.run w t a with
  | case1 => exact hw
  | case2 w a hb o cache hf => exact h.obstacle w a o cache hf hw
  | case3 w a hb site cache hf s visited next hn ih => exact ih (h.visit w a site cache hb hf hw)
  | case4 w a hb site cache hf => exact h.visit w a site cache hb hf hw

theorem restart (h : Kept t P) (hw : P w) : P (w.restart t a).2 :=
  h.run (h.count w hw)

theorem catchUp (h : Kept t P) (hw : P w) : P (w.catchUp t count s).2 := by
  fun_induction Walk.catchUp w t count s with
  | case1 => exact hw
  | case2 w s hlt a hs e w' hrun =>
      have hkept : P (w.run t (t.truncate a)).2 := h.run hw
      rwa [hrun] at hkept
  | case3 w s hlt a hs s' w' hrun hb ih =>
      have hkept : P (w.run t (t.truncate a)).2 := h.run hw
      rw [hrun] at hkept
      exact ih hkept
  | case4 => exact hw

theorem andThen {f : Stop → Walk → Outcome} (ho : P o.2) (hf : ∀ s w, P w → P (f s w).2) :
    P (o.andThen f).2 := by
  rcases o with ⟨e | s, w⟩
  · exact ho
  · exact hf s w ho

theorem retire (h : Kept t P) (hw : P w) : P (w.retire t count s).2 := by
  unfold Walk.retire
  split
  · exact hw
  · refine andThen (h.catchUp hw) fun s w hw => ?_
    split
    · exact hw
    · exact hw

theorem follow (h : Kept t P) (hw : P w) (ho : w.follow t s payload = some o) : P o.2 := by
  cases payload with
  | sync address count =>
      rw [← Option.some.inj ho]
      exact h.restart (h.retire hw)
  | exception address count =>
      rw [← Option.some.inj ho]
      exact andThen (h.retire hw) fun _ _ hw => h.restart hw
  | directBranch taken count =>
      rw [← Option.some.inj ho]
      refine andThen (h.retire hw) fun s w hw => ?_
      cases s.outcome? taken with
      | none => exact hw
      | some address =>
          simp only
          split
          · exact h.run hw
          · exact h.restart hw
  | indirectBranch target count =>
      rw [← Option.some.inj ho]
      refine andThen (h.retire hw) fun s w hw => ?_
      cases s.jump? target with
      | none => exact hw
      | some address => exact h.restart hw
  | print f => cases ho
  | timestamp => cases ho
  | error code => cases ho

end Walk.Kept

/-- Every visit is paid for from the budget. -/
theorem Walk.kept_budget (t : Terrain) (n : Nat) :
    Kept t fun w => w.visited.length + w.budget = n where
  obstacle _ _ _ _ _ h := h
  visit w _ _ _ hb _ h := by
    simp only [visit, List.length_cons]
    omega
  count _ h := h

theorem Walk.kept_stack {Q : ReturnStack → Prop}
    (h : ∀ s stack, Q stack → Q (t.stackAfter s stack)) :
    Kept t fun w => Q w.stack where
  obstacle _ _ _ _ _ hw := hw
  visit w a site _ _ _ hw := h ⟨a, site.instruction⟩ w.stack hw
  count _ hw := hw

/-! ## One visit -/

namespace Walk

variable {cache : SiteCache} {site : Site} {next : UInt64}

theorem run_of_budget (hb : w.budget = 0) :
    w.run t a = w.conflict a (.runLimit t.maxRun) := by
  rw [run, dif_pos hb]

theorem run_of_obstacle {obstacle : Obstacle} (hb : w.budget ≠ 0)
    (hf : w.cache.fetch t.image a = (.error obstacle, cache)) :
    w.run t a = (.error ⟨a, obstacle⟩, { w with cache }) := by
  rw [run, dif_neg hb, hf]

theorem run_of_goes (hb : w.budget ≠ 0) (hf : w.cache.fetch t.image a = (.ok site, cache))
    (hn : t.continuation? ⟨a, site.instruction⟩ w.stack = some next) :
    w.run t a = ({ w with cache }.visit t a site).run t next := by
  rw [run, dif_neg hb, hf]
  simp only [hn]

theorem run_of_parks (hb : w.budget ≠ 0) (hf : w.cache.fetch t.image a = (.ok site, cache))
    (hn : t.continuation? ⟨a, site.instruction⟩ w.stack = none) :
    w.run t a = (.ok ⟨a, site.instruction⟩, { w with cache }.visit t a site) := by
  rw [run, dif_neg hb, hf]
  simp only [hn]

/-! ## Walks with different caches -/

variable {image : Image}

theorem Alike.budget (h : w.Alike image w') : w'.budget = w.budget := by
  rw [h.eq]

theorem Alike.stack (h : w.Alike image w') : w'.stack = w.stack := by
  rw [h.eq]

theorem Alike.retired (h : w.Alike image w') : w'.retired = w.retired := by
  rw [h.eq]

theorem Alike.visited (h : w.Alike image w') : w'.visited = w.visited := by
  rw [h.eq]

theorem Alike.visit (h : w.Alike t.image w') (a : UInt64) (site : Site) :
    (w.visit t a site).Alike t.image (w'.visit t a site) :=
  ⟨by rw [h.eq]; rfl, h.sites, h.sites'⟩

/-- What is found at an address does not depend on the cache. -/
theorem Alike.fetch {r : Except Obstacle Site} (h : w.Alike t.image w')
    (hf : w.cache.fetch t.image a = (r, cache)) :
    ∃ cache', w'.cache.fetch t.image a = (r, cache') ∧
      Alike t.image { w with cache } { w' with cache := cache' } := by
  obtain ⟨hr, hv⟩ := h.sites.fetch a
  obtain ⟨hr', hv'⟩ := h.sites'.fetch a
  rw [hf] at hr hv
  exact ⟨(w'.cache.fetch t.image a).2, Prod.ext (hr'.trans hr.symm) rfl, by rw [h.eq], hv, hv'⟩

theorem Alike.run (h : w.Alike t.image w') : (w.run t a).Alike t.image (w'.run t a) := by
  fun_induction Walk.run w t a generalizing w' with
  | case1 w a hb =>
      rw [run_of_budget (h.budget.trans hb)]
      exact ⟨rfl, h⟩
  | case2 w a hb o cache hf =>
      obtain ⟨cache', hf', halike⟩ := h.fetch hf
      rw [run_of_obstacle (by rwa [h.budget]) hf']
      exact ⟨rfl, halike⟩
  | case3 w a hb site cache hf s visited next =>
      rename_i hn ih
      obtain ⟨cache', hf', halike⟩ := h.fetch hf
      rw [run_of_goes (w := w') (by rwa [h.budget]) hf' (by rwa [h.stack])]
      exact ih (halike.visit a site)
  | case4 w a hb site cache hf s visited =>
      rename_i hn
      obtain ⟨cache', hf', halike⟩ := h.fetch hf
      rw [run_of_parks (by rwa [h.budget]) hf' (by rwa [h.stack])]
      exact ⟨rfl, halike.visit a site⟩

theorem Alike.restart (h : w.Alike t.image w') :
    (w.restart t a).Alike t.image (w'.restart t a) :=
  Alike.run ⟨by rw [h.eq], h.sites, h.sites'⟩

end Walk

theorem Outcome.Alike.exists_walk {r : Except Disagreement Stop}
    (h : Outcome.Alike t.image (r, w) o') : ∃ w', o' = (r, w') ∧ w.Alike t.image w' :=
  ⟨o'.2, Prod.ext h.result.symm rfl, h.walk⟩

theorem Outcome.Alike.andThen {f f' : Stop → Walk → Outcome} (h : o.Alike t.image o')
    (hf : ∀ s w w', w.Alike t.image w' → (f s w).Alike t.image (f' s w')) :
    (o.andThen f).Alike t.image (o'.andThen f') := by
  obtain ⟨r, w⟩ := o
  obtain ⟨w', rfl, hw⟩ := h.exists_walk
  cases r with
  | error e => exact ⟨rfl, hw⟩
  | ok s => exact hf s w w' hw

namespace Walk

theorem Alike.catchUp (h : w.Alike t.image w') :
    (w.catchUp t count s).Alike t.image (w'.catchUp t count s) := by
  fun_induction Walk.catchUp w t count s generalizing w' with
  | case1 w s hlt hs =>
      rw [catchUp_eq w', if_pos (h.retired ▸ hlt), hs]
      exact ⟨rfl, h⟩
  | case2 w s hlt a hs e w₁ hrun =>
      have halike : (w.run t (t.truncate a)).Alike t.image (w'.run t (t.truncate a)) := h.run
      rw [catchUp_eq w', if_pos (h.retired ▸ hlt), hs]
      rw [hrun] at halike
      obtain ⟨w₁', hrun', hw⟩ := halike.exists_walk
      simp only [hrun', Outcome.andThen]
      exact ⟨rfl, hw⟩
  | case3 w s hlt a hs s' w₁ hrun hb ih =>
      have halike : (w.run t (t.truncate a)).Alike t.image (w'.run t (t.truncate a)) := h.run
      rw [catchUp_eq w', if_pos (h.retired ▸ hlt), hs]
      rw [hrun] at halike
      obtain ⟨w₁', hrun', hw⟩ := halike.exists_walk
      simp only [hrun', Outcome.andThen]
      exact ih hw
  | case4 w s hlt =>
      rw [catchUp_eq w', if_neg (h.retired ▸ hlt)]
      exact ⟨rfl, h⟩

theorem Alike.retire (h : w.Alike t.image w') :
    (w.retire t count s).Alike t.image (w'.retire t count s) := by
  unfold Walk.retire
  split
  · exact ⟨rfl, h⟩
  · refine h.catchUp.andThen fun s w w' h => ?_
    rw [h.retired]
    split
    · exact ⟨rfl, h⟩
    · exact ⟨rfl, h⟩

/-- A message leads both walks on, or neither of them. -/
theorem Alike.follow (h : w.Alike t.image w') :
    Option.Rel (Outcome.Alike t.image) (w.follow t s payload) (w'.follow t s payload) := by
  cases payload with
  | sync address count => exact .some h.retire.walk.restart
  | exception address count => exact .some (h.retire.andThen fun _ _ _ h => h.restart)
  | directBranch taken count =>
      refine .some (h.retire.andThen fun s w w' h => ?_)
      cases s.outcome? taken with
      | none => exact ⟨rfl, h⟩
      | some address =>
          simp only
          split
          · exact h.run
          · exact h.restart
  | indirectBranch target count =>
      refine .some (h.retire.andThen fun s w w' h => ?_)
      cases s.jump? target with
      | none => exact ⟨rfl, h⟩
      | some address => exact h.restart
  | print f => exact .none
  | timestamp => exact .none
  | error code => exact .none

end Walk

end Retrace
