import Retrace.Proofs.Trace.Resynchronization

/-!
# Counts are exact

A message with a count is accepted only where the instructions since the count of its core started
have that many half-words.
-/

namespace Retrace

/-- The message starts the count of its core anew. An outcome without a count is covered by a later
one. -/
def Payload.restarts : Payload → Bool
  | sync .. | indirectBranch .. | exception .. => true
  | directBranch _ count => count ≠ 0
  | _ => false

/-- The records of a core since its count started, where `earlier` are those before the messages. A
message starts it when it is followed, behind the records that its own count covers. -/
def Tracer.counting (id : UInt16) (t : Tracer) (earlier : List Record) :
    List Message → List Record
  | [] => earlier
  | m :: ms =>
    (t.process m).2.counting id
      (if m.core ≠ id then earlier
      else if m.payload.restarts then (t.reconstructed m).drop (t.covered m)
      else earlier ++ t.reconstructed m) ms

def halvesIn (records : List Record) : Nat :=
  halvesOf (records.map (·.stop))

variable {T : Terrain} {w w' : Walk} {a : UInt64} {s p : Stop} {count : Nat} {payload : Payload}
  {cache : SiteCache} {c : Core} {t : Tracer} {m : Message} {id : UInt16} {earlier : List Record}

/-! ## What walks have passed -/

theorem Walk.kept_sites (T : Terrain) : Kept T fun w => w.cache.Valid T.image where
  obstacle w a o cache hf h := by
    have hv := (h.fetch a).2
    rwa [hf] at hv
  visit w a site cache _ hf h := by
    have hv := (h.fetch a).2
    rwa [hf] at hv
  count _ h := h

theorem Walk.pass_of_run (hv : w.cache.Valid T.image) (h : w.run T a = (.ok p, w')) :
    ∃ before cache, Runs T w.stack a before p ∧ w' = w.pass T (before ++ [p]) cache := by
  obtain ⟨before, hr, hb⟩ := runs_of_run hv h
  obtain ⟨cache, -, hrun⟩ := run_of_runs hr hv hb
  exact ⟨before, cache, hr, (Prod.mk.inj (h.symm.trans hrun)).2⟩

theorem Walk.coasts_of_catchUp (hv : w.cache.Valid T.image)
    (h : w.catchUp T count s = (.ok p, w')) :
    ∃ ss cache, Coasts T w.stack s ss p ∧ w' = w.pass T ss cache := by
  fun_induction Walk.catchUp w T count s with
  | case1 =>
      cases h
      exact ⟨[], _, .rests, (pass_nil _ T).symm⟩
  | case2 => cases h
  | case3 w s hlt a hs q v hrun hb ih =>
      have hv' : (w.run T (T.truncate a)).2.cache.Valid T.image := (kept_sites T).run hv
      rw [hrun] at hv'
      obtain ⟨before, cache, hr, rfl⟩ := pass_of_run hv hrun
      obtain ⟨ss, cache', hc, rfl⟩ := ih hv' h
      refine ⟨before ++ q :: ss, cache', .goes hs hr hc, ?_⟩
      rw [pass_append, List.append_assoc, List.singleton_append]
  | case4 =>
      cases h
      exact ⟨[], _, .rests, (pass_nil _ T).symm⟩

/-- A count is met only where coasting leads to its end. -/
theorem Walk.coasts_of_retire (hv : w.cache.Valid T.image) (hpos : 0 < count)
    (h : w.retire T count s = (.ok p, w')) :
    ∃ ss cache, Coasts T w.stack s ss p ∧ w' = w.pass T ss cache ∧
      w.retired + halvesOf ss = count := by
  rw [retire, if_neg hpos.ne'] at h
  cases hc : w.catchUp T count s with
  | mk r v =>
      rw [hc] at h
      cases r with
      | error e => cases h
      | ok q =>
          simp only [Outcome.andThen] at h
          split at h
          · rename_i heq
            cases h
            obtain ⟨ss, cache, hcoasts, rfl⟩ := coasts_of_catchUp hv hc
            exact ⟨ss, cache, hcoasts, rfl, heq⟩
          · cases h

theorem Outcome.andThen_eq_ok {o : Outcome} {f : Stop → Walk → Outcome}
    (h : o.andThen f = (.ok p, w')) : ∃ s w, o = (.ok s, w) ∧ f s w = (.ok p, w') := by
  obtain ⟨e | s, w⟩ := o
  · cases h
  · exact ⟨s, w, rfl, h⟩

/-- A walk that a message leads on passes a run, behind what its count covers if it starts the count
anew. -/
theorem Walk.pass_of_follow (hv : w.cache.Valid T.image)
    (h : w.follow T s payload = some (.ok p, w')) :
    ∃ ss cache, w' =
      (if payload.restarts then { (w.retire T payload.count s).2 with retired := 0 }
        else w).pass T ss cache := by
  have hrestart {v : Walk} {a : UInt64} (hv : v.cache.Valid T.image)
      (hr : v.restart T a = (.ok p, w')) :
      ∃ ss cache, w' = { v with retired := 0 }.pass T ss cache := by
    obtain ⟨before, cache, -, heq⟩ := pass_of_run (w := { v with retired := 0 }) hv hr
    exact ⟨_, cache, heq⟩
  have hv' : (w.retire T payload.count s).2.cache.Valid T.image := (kept_sites T).retire hv
  cases payload with
  | sync address count => exact hrestart hv' (Option.some.inj h)
  | exception address count =>
      obtain ⟨q, u, hret, hr⟩ := Outcome.andThen_eq_ok (Option.some.inj h)
      obtain rfl := congrArg Prod.snd hret
      exact hrestart hv' hr
  | directBranch taken count =>
      obtain ⟨q, u, hret, hr⟩ := Outcome.andThen_eq_ok (Option.some.inj h)
      cases hout : q.outcome? taken with
      | none =>
          simp only [hout] at hr
          cases hr
      | some a =>
          simp only [hout] at hr
          by_cases hzero : count = 0
          · rw [if_pos hzero] at hr
            rw [retire, if_pos hzero] at hret
            cases hret
            obtain ⟨before, cache, -, heq⟩ := pass_of_run hv hr
            exact ⟨_, cache, by simpa [Payload.restarts, hzero] using heq⟩
          · rw [if_neg hzero] at hr
            obtain rfl := congrArg Prod.snd hret
            simpa [Payload.restarts, hzero] using hrestart hv' hr
  | indirectBranch target count =>
      obtain ⟨q, u, hret, hr⟩ := Outcome.andThen_eq_ok (Option.some.inj h)
      obtain rfl := congrArg Prod.snd hret
      cases hout : q.jump? target with
      | none =>
          simp only [hout] at hr
          cases hr
      | some a =>
          simp only [hout] at hr
          exact hrestart hv' hr
  | print | timestamp | error => cases h

theorem Payload.restarts_of_count (h : 0 < payload.count) : payload.restarts = true := by
  cases payload with
  | directBranch taken n => exact decide_eq_true h.ne'
  | sync | indirectBranch | exception => rfl
  | print | timestamp | error => cases h

theorem Walk.exists_follow (h : payload.restarts = true) :
    ∃ o, w.follow T s payload = some o := by
  cases payload with
  | print | timestamp | error => cases h
  | _ => exact ⟨_, rfl⟩

/-- Only a sync is followed whether or not its count is met. -/
theorem Walk.retire_of_follow (hkind : payload.kind ≠ .sync)
    (h : w.follow T s payload = some (.ok p, w')) :
    ∃ q v, w.retire T payload.count s = (.ok q, v) := by
  cases payload with
  | sync => exact absurd rfl hkind
  | print | timestamp | error => cases h
  | _ =>
      obtain ⟨q, v, hret, -⟩ := Outcome.andThen_eq_ok (Option.some.inj h)
      exact ⟨q, v, hret⟩

/-! ## One message -/

theorem halvesIn_append (records records' : List Record) :
    halvesIn (records ++ records') = halvesIn records + halvesIn records' := by
  rw [halvesIn, List.map_append, halvesOf_append]
  rfl

theorem halvesIn_visitAt (m : Message) (image : Image) (ss : List Stop) :
    halvesIn ((ss.map image.visitAt).map (Record.of m)) = halvesOf ss := by
  rw [halvesIn, List.map_map, List.map_map]
  exact congrArg halvesOf (List.map_id ss)

namespace Core

/-- If the core is parked, its count is that of the records. -/
def Counts (c : Core) (records : List Record) : Prop :=
  ∀ s, c.phase = .parked s → c.retired = halvesIn records

theorem pass_of_outcome? (hv : cache.Valid T.image)
    (h : c.outcome? T cache payload = some (.ok p, w')) :
    ∃ (v : Walk) (ss : List Stop) (cache' : SiteCache),
      v.visited.length = c.covered T cache payload.count ∧ w' =
      (if payload.restarts then { v with retired := 0 } else c.walk T cache).pass T ss cache' := by
  cases hp : c.phase with
  | parked s =>
      simp only [outcome?, hp] at h
      obtain ⟨ss, cache', heq⟩ := Walk.pass_of_follow hv h
      exact ⟨_, ss, cache', by simp only [covered, covering?, hp], heq⟩
  | _ =>
      cases payload with
      | sync address count =>
          simp only [outcome?, hp] at h
          obtain ⟨before, cache', -, heq⟩ :=
            Walk.pass_of_run (w := { c.walk T cache with retired := 0 }) hv (Option.some.inj h)
          exact ⟨c.walk T cache, _, cache', by simp only [covered, covering?, hp]; rfl, heq⟩
      | _ => simp [outcome?, hp] at h

theorem restarts_of_none (hp : c.phase = .parked s) (h : c.outcome? T cache payload = none) :
    payload.restarts = false := by
  simp only [outcome?, hp] at h
  by_contra hr
  obtain ⟨o, ho⟩ := Walk.exists_follow (w := c.walk T cache) (T := T) (s := s)
    ((Bool.not_eq_false _).mp hr)
  rw [h] at ho
  cases ho

theorem parked_of_some {o : Outcome} (h : c.outcome? T cache payload = some o)
    (hr : payload.restarts = false) : ∃ s, c.phase = .parked s := by
  cases hp : c.phase with
  | parked s => exact ⟨s, rfl⟩
  | _ =>
      cases payload with
      | sync address count => cases hr
      | _ => simp [outcome?, hp] at h

/-- A message adds its records to the count, or starts the count with those behind the ones that it
covers. -/
theorem Counts.step (h : c.Counts earlier) (hv : cache.Valid T.image) (m : Message) :
    let effect := c.step T cache m.payload
    let records := effect.visits.map (Record.of m)
    effect.core.Counts (if m.payload.restarts then records.drop (c.covered T cache m.count)
      else earlier ++ records) := by
  intro effect records q hq
  by_cases herror : ∃ code, m.payload = .error code
  · obtain ⟨code, herror⟩ := herror
    simp only [effect, herror, step_error] at hq
    cases hq
  · have herror : ∀ code, m.payload ≠ .error code := fun code h => herror ⟨code, h⟩
    cases ho : c.outcome? T cache m.payload with
    | none =>
        have heffect : effect = ⟨c, cache, [], none⟩ := step_of_none ho herror
        simp only [records, heffect] at hq ⊢
        rw [restarts_of_none hq ho, h q hq]
        simp
    | some o =>
        have heffect : effect = .ofOutcome o := step_of_some ho herror
        obtain ⟨r, w'⟩ := o
        cases r with
        | error e =>
            rw [heffect] at hq
            cases hq
        | ok p =>
            obtain ⟨v, ss, cache', hcovered, hw'⟩ := pass_of_outcome? hv ho
            have hvisited (v : Walk) : (v.pass T ss cache').visited.reverse =
                v.visited.reverse ++ ss.map T.image.visitAt := by
              simp [Walk.pass]
            simp only [records, heffect, Effect.visits_ofOutcome]
            change w'.retired = _
            cases hr : m.payload.restarts with
            | true =>
                simp only [hr, ite_true] at hw' ⊢
                have hlen : (v.visited.reverse.map (Record.of m)).length =
                    c.covered T cache m.count := by
                  rw [List.length_map, List.length_reverse, hcovered, Message.count]
                rw [hw', hvisited, List.map_append, ← hlen, List.drop_left, halvesIn_visitAt]
                exact Nat.zero_add _
            | false =>
                simp only [hr, Bool.false_eq_true, ite_false] at hw' ⊢
                obtain ⟨s, hs⟩ := parked_of_some ho hr
                rw [hw', hvisited, halvesIn_append, ← h s hs]
                exact congrArg _ (halvesIn_visitAt m T.image ss).symm

end Core

/-! ## Messages in a row -/

namespace Tracer

theorem core_of_process (hs : t.selects id = true) (hv : t.cache.Valid t.image)
    (h : (t.core id).Counts earlier) (m : Message) :
    ((t.process m).2.core id).Counts
      (if m.core ≠ id then earlier
      else if m.payload.restarts then (t.reconstructed m).drop (t.covered m)
      else earlier ++ t.reconstructed m) := by
  by_cases hid : m.core = id
  · subst hid
    have hstep := h.step (T := t.terrain) hv m
    rw [core_process_self hs, reconstructed_of_selects hs, if_neg (not_not_intro rfl)]
    exact hstep
  · rw [core_process_of_ne hid, if_pos hid]
    exact h

theorem counts_feed (hs : t.selects id = true) (hv : t.cache.Valid t.image)
    (h : (t.core id).Counts earlier) (ms : List Message) :
    (t.feed ms).cache.Valid t.image ∧
      ((t.feed ms).core id).Counts (t.counting id earlier ms) := by
  induction ms generalizing t earlier with
  | nil => exact ⟨hv, h⟩
  | cons m ms ih =>
      have hv' := sites_process hv m
      rw [← image_process (m := m)] at hv'
      obtain ⟨hsites, hcounts⟩ :=
        ih ((selects_process id).trans hs) hv' (core_of_process hs hv h m)
      exact ⟨by rwa [image_process] at hsites, hcounts⟩

/-- A message with a count leads a parked core over instructions that the count covers, or faults
it. -/
theorem covers_or_faults (hs : t.selects m.core = true) (hv : t.cache.Valid t.image)
    (hp : t.phase m.core = .parked s) (hkind : m.kind ≠ .sync) (hpos : 0 < m.count) :
    (∃ p, Coasts t.terrain (t.core m.core).stack s
          (((t.reconstructed m).take (t.covered m)).map (·.stop)) p ∧
        (t.core m.core).retired + halvesIn ((t.reconstructed m).take (t.covered m)) = m.count) ∨
      ((∃ e, (t.process m).1 = .error e) ∧ (t.process m).2.phase m.core = .faulted) := by
  have hrestarts : m.payload.restarts = true := Payload.restarts_of_count hpos
  obtain ⟨⟨r, w'⟩, ho⟩ := Walk.exists_follow (w := (t.core m.core).walk t.terrain t.cache)
    (T := t.terrain) (s := s) hrestarts
  have heffect : t.effect m = .ofOutcome (r, w') := Core.step_of_follow hp ho
  cases r with
  | error e =>
      refine .inr ⟨⟨e, ?_⟩, ?_⟩
      · rw [process_of_selects hs, heffect]
        rfl
      · rw [phase, core_process_self hs, heffect]
        rfl
  | ok p =>
      obtain ⟨q, v, hret⟩ := Walk.retire_of_follow hkind ho
      obtain ⟨ss, cache, hcoasts, rfl, hsum⟩ := Walk.coasts_of_retire hv hpos hret
      obtain ⟨ss', cache', hw'⟩ := Walk.pass_of_follow hv ho
      simp only [hrestarts, ite_true, hret] at hw'
      have hcovered : t.covered m = ss.length := by
        simp only [covered, Core.covered, Core.covering?, show (t.core m.core).phase = _ from hp]
        rw [Message.count, hret]
        simp [Walk.pass, Core.walk]
      have hstops : ((t.reconstructed m).take (t.covered m)).map (·.stop) = ss := by
        have hvisits : (t.effect m).visits = ss.map t.image.visitAt ++ ss'.map t.image.visitAt := by
          rw [heffect, Effect.visits_ofOutcome, hw']
          simp [Walk.pass, Core.walk, terrain]
        have hlen : ((ss.map t.image.visitAt).map (Record.of m)).length = t.covered m := by
          simp [hcovered]
        rw [reconstructed_of_selects hs, hvisits, List.map_append, ← hlen, List.take_left,
          List.map_map, List.map_map]
        exact List.map_id ss
      exact .inl ⟨q, by rwa [hstops], by rwa [halvesIn, hstops]⟩

/-- A message with a count is accepted only where coasting from where the core is parked leads over
the rest of the half-words since its count started. Elsewhere it faults the core. -/
theorem counts_are_exact (image : Image) (options : TracerOptions) (cache : SiteCache)
    (ms : List Message) (m : Message) (s : Stop) (hcache : cache.Valid image)
    (hp : ((start image options cache).feed ms).phase m.core = .parked s)
    (hkind : m.kind ∈ [MessageKind.directBranch, .indirectBranch, .exception])
    (hpos : 0 < m.count) :
    let t := (start image options cache).feed ms
    let counting := (start image options cache).counting m.core [] ms
    let covered := (t.reconstructed m).take (t.covered m)
    let stack := (t.core m.core).stack
    ((∃ records, (t.process m).1 = .ok records) →
      halvesIn (counting ++ covered) = m.count ∧
        ∃ p, Coasts t.terrain stack s (covered.map (·.stop)) p) ∧
    ((∀ ss p, Coasts t.terrain stack s ss p → halvesIn counting + halvesOf ss ≠ m.count) →
      (∃ e, (t.process m).1 = .error e) ∧ (t.process m).2.phase m.core = .faulted) := by
  intro t counting covered stack
  have hnew : (start image options cache).core m.core =
      .start (min options.returnStack maxReturnStack) := Std.TreeMap.getD_emptyc
  have hselects : (start image options cache).selects m.core = true := by
    by_contra hnot
    rw [phase, core_feed_of_not_selects (Bool.not_eq_true _ ▸ hnot), hnew] at hp
    cases hp
  have hcounts : ((start image options cache).core m.core).Counts [] := by
    rw [hnew]
    rintro _ ⟨⟩
  obtain ⟨hsites, hcounts⟩ := counts_feed hselects hcache hcounts ms
  have hsum : (t.core m.core).retired = halvesIn counting := hcounts s hp
  rw [← image_feed ms] at hsites
  have hcases := covers_or_faults ((selects_feed ms _).trans hselects) hsites hp
    (by rintro h; simp [h] at hkind) hpos
  rw [hsum] at hcases
  rcases hcases with ⟨p, hcoasts, heq⟩ | ⟨⟨e, herror⟩, hfaulted⟩
  · refine ⟨fun _ => ⟨(halvesIn_append _ _).trans heq, p, hcoasts⟩, fun hnone => ?_⟩
    exact absurd heq (hnone _ p hcoasts)
  · refine ⟨fun ⟨records, hok⟩ => ?_, fun _ => ⟨⟨e, herror⟩, hfaulted⟩⟩
    rw [herror] at hok
    cases hok

/-- The branch and the return behind it have the three half-words of the first jump. The call and
the return have three as well, and nothing goes on from there to a fourth one. -/
theorem counts_of_jumps :
    let t := start callAndReturn {} (.empty 1)
    let sync : Message := ⟨0, 0, .sync 0x1004 0⟩
    let met : Message := ⟨0, 1, .indirectBranch 0x1000 3⟩
    let missed : Message := ⟨0, 2, .indirectBranch 0x1000 4⟩
    let covered := ((t.feed [sync]).reconstructed met).take ((t.feed [sync]).covered met)
    halvesIn (t.counting 0 [] [sync] ++ covered) = 3 ∧ covered.map (·.address) = [0x1008] ∧
      halvesIn (t.counting 0 [] [sync, met]) = 3 ∧
      ((t.feed [sync, met]).process missed).2.phase 0 = .faulted := by
  intro t sync met missed covered
  let branch : Stop := ⟨0x1004, ⟨.bits32 0x63, .branch .eq ⟨0, 0, 0⟩⟩⟩
  let back : Stop := ⟨0x1008, ⟨.bits16 0x8082, .cJr 1⟩⟩
  have hsites : (SiteCache.empty 1).Valid callAndReturn := SiteCache.valid_empty _ _
  have hthree : halvesIn (t.counting 0 [] [sync, met]) = 3 := by decide +kernel
  refine ⟨?_, by decide +kernel, hthree, ?_⟩
  · have hbranch : (t.feed [sync]).phase 0 = .parked branch := by decide +kernel
    have hok : ∃ records, ((t.feed [sync]).process met).1 = .ok records :=
      (accepted_iff (by decide +kernel)).mpr (by decide +kernel)
    exact ((counts_are_exact callAndReturn {} (.empty 1) [sync] met branch hsites hbranch
      (by decide) (by decide)).1 hok).1
  · have hreturn : (t.feed [sync, met]).phase 0 = .parked back := by decide +kernel
    refine ((counts_are_exact callAndReturn {} (.empty 1) [sync, met] missed back hsites hreturn
      (by decide) (by decide)).2 ?_).2
    intro ss p hcoasts
    cases hcoasts with
    | rests =>
        rw [hthree]
        decide
    | goes hs => cases hs

end Tracer

end Retrace
