import PamSmsauth.Interleaving

/-!
# Whose row a statement touches

A session looks its row up by name and then touches it by id, in a second statement. In between any
session may purge the row, and another may be given its id, since `sqlite_get_next_rowid` hands out
`max(id) + 1`. A run in which this does not happen (`Careful`) keeps the users apart (`Owned`): a
statement aimed at an id touches rows of the session's own user only, an `otp` column holds a
password made for the owner of the row, and no session compares its token with another user's
(`sessions_isolated`). Three sessions of two users are enough to break it
(`sessions_isolated_fails`).
-/

namespace PamSmsauth

open CText Eff

variable {ι : Type}

/-- The id in a statement that fails its purpose when the row is gone: the `UPDATE` of
`pam_register_otp` then changes nothing, the `SELECT` of `pam_get_otp` fills no buffer. -/
def Op.needed : Op → Option Int
  | .exec .registerOtp stmt | .exec .getOtp stmt => stmt.target
  | _ => none

/-- Session `i` is about to touch the row `id` and needs it to be there. -/
def Needs (p : Sessions ι) (i : ι) (id : Int) : Prop := (p.next i).bind Op.needed = some id

instance (p : Sessions ι) (i : ι) (id : Int) : Decidable (Needs p i id) :=
  inferInstanceAs (Decidable (_ = _))

theorem needs_iff {p : Sessions ι} {i : ι} {id : Int} :
    Needs p i id ↔ ∃ op : Op, p.Waits i op ∧ op.needed = some id :=
  Option.bind_eq_some_iff

theorem target_of_needed {op : Op} {id : Int} (h : op.needed = some id) : op.target = some id := by
  unfold Op.needed at h
  split at h
  · exact h
  · exact h
  · cases h

theorem Needs.aims {p : Sessions ι} {i : ι} {id : Int} (h : Needs p i id) : Aims p i id := by
  obtain ⟨op, hw, hop⟩ := needs_iff.mp h
  exact aims_iff.mpr ⟨op, hw, target_of_needed hop⟩

/-- A session of `user` generated `otp`. -/
def GeneratedFor (c : ι → Call) (p : Sessions ι) (user otp : CString) : Prop :=
  ∃ j words, (c j).user = some user ∧
    (j, ⟨.urandom (c j).arg.otpLen, some words⟩) ∈ p.world.log ∧ otp = (c j).newOtp words

/-- The step of `i` gives no row an id that a session of another user is about to touch, and purges
no row that a session needs. -/
def Careful (c : ι → Call) (p : Sessions ι) (i : ι) : Prop :=
  match p.next i with
  | some (.exec _ (.insertData id user _)) =>
    (∀ r ∈ p.world.state.rows, r.id ≠ id) → ∀ j, Aims p j id → (c j).user = some user
  | some (.exec _ (.purgeTable time)) =>
    ∀ r ∈ p.world.state.rows, r.timestamp < time → ∀ j, ¬ Needs p j r.id
  | _ => True

instance [Fintype ι] (c : ι → Call) (p : Sessions ι) (i : ι) : Decidable (Careful c p i) := by
  unfold Careful
  split <;> infer_instance

/-- The users are kept apart. -/
structure Owned (c : ι → Call) (p : Sessions ι) : Prop where
  aims_own : ∀ i id, Aims p i id → ∀ r ∈ p.world.state.rows, r.id = id → (c i).user = some r.user
  needs_row : ∀ i id, Needs p i id → ∃ r ∈ p.world.state.rows, r.id = id
  otp_own : ∀ r ∈ p.world.state.rows, ∀ otp, r.otp = some otp → GeneratedFor c p r.user otp
  compared_own : ∀ i input otp n, p.sess i = .ret (.compared input otp n) →
    ∃ user o, (c i).user = some user ∧ GeneratedFor c p user o ∧ cstr otp = o.bytes

theorem owned_start (c : ι → Call) : Owned c (start c) where
  aims_own _ _ h := nomatch h
  needs_row _ _ h := nomatch h
  otp_own _ hr := nomatch hr
  compared_own _ _ _ _ h := nomatch h

variable [DecidableEq ι] {c : ι → Call} {p p' : Sessions ι} {i j : ι} {op : Op} {a : op.Ans}

namespace Move

theorem generatedFor (h : Move c p i op a p') {user otp : CString}
    (hg : GeneratedFor c p user otp) : GeneratedFor c p' user otp := by
  obtain ⟨j, words, hu, hmem, rfl⟩ := hg
  exact ⟨j, words, hu, h.mem_log.mpr (.inl hmem), rfl⟩

/-- Who needs a row needed it before, or has just looked it up. -/
theorem needs_cases (h : Move c p i op a p') {id : Int} (hneeds : Needs p' j id) :
    Needs p j id ∨ j = i ∧ ∃ user site, (c i).user = some user ∧ Found user site id ⟨op, a⟩ := by
  obtain ⟨op', hw, hneeded⟩ := needs_iff.mp hneeds
  rcases h.waits_cases hw with ⟨-, hw⟩ | ⟨rfl, user, hu, hbefore⟩
  · exact .inl (needs_iff.mpr ⟨op', hw, hneeded⟩)
  · obtain ⟨site, hfound⟩ := hbefore.found (target_of_needed hneeded)
    exact .inr ⟨rfl, user, site, hu, after_append_singleton.mp hfound⟩

theorem careful_insert (hm : Move c p i op a p') (hcare : Careful c p i) {site : Site} {id : Int}
    {user : CString} {timestamp : Int} (hop : op = .exec site (.insertData id user timestamp))
    (hnew : ∀ r ∈ p.world.state.rows, r.id ≠ id) (haims : Aims p j id) :
    (c j).user = some user := by
  subst hop
  unfold Careful at hcare
  rw [show p.next i = _ from hm.asks] at hcare
  exact hcare hnew j haims

theorem careful_purge (hm : Move c p i op a p') (hcare : Careful c p i) {site : Site} {time : Int}
    (hop : op = .exec site (.purgeTable time)) {r : Row} (hr : r ∈ p.world.state.rows)
    (hexp : r.timestamp < time) : ¬ Needs p j r.id := by
  subst hop
  unfold Careful at hcare
  rw [show p.next i = _ from hm.asks] at hcare
  exact hcare r hr hexp j

end Move

/-! ## What a careful step preserves -/

namespace Owned

theorem aims_own_step (h : Owned c p) (hc : (c i).Complete) (hf : (c i).Fits)
    (hcare : Careful c p i) (hm : Move c p i op a p') {id : Int} (haims : Aims p' j id) {r : Row}
    (hr : r ∈ p'.world.state.rows) (hid : r.id = id) : (c j).user = some r.user := by
  rcases hm.aims_cases haims with haims | ⟨rfl, user, site, hu, hfound⟩
  · rcases (hm.change hf).row hr with ⟨s, hs, hsid, hsu, -⟩ | ⟨hop, -, -, hnew, -⟩
    · rw [← hsu]
      exact h.aims_own j id haims s hs (hsid.trans hid)
    · subst hid
      exact hm.careful_insert hcare hop hnew haims
  · obtain ⟨hT, s, hl, hsid⟩ := hm.found hc hf hfound
    obtain ⟨hs, rfl⟩ := Table.lookup_mem hl
    rw [hT] at hr
    rw [Table.eq_of_id_eq hr hs (hid.trans hsid.symm), hu]

theorem needs_row_step (h : Owned c p) (hc : (c i).Complete) (hf : (c i).Fits)
    (hcare : Careful c p i) (hm : Move c p i op a p') {id : Int} (hneeds : Needs p' j id) :
    ∃ r ∈ p'.world.state.rows, r.id = id := by
  rcases hm.needs_cases hneeds with hneeds | ⟨rfl, user, site, hu, hfound⟩
  · obtain ⟨s, hs, rfl⟩ := h.needs_row j id hneeds
    rcases (hm.change hf).kept hs with ⟨r, hr, hid, -⟩ | ⟨hop, hexp⟩
    · exact ⟨r, hr, hid⟩
    · exact absurd hneeds (hm.careful_purge hcare hop hs hexp)
  · obtain ⟨hT, s, hl, hsid⟩ := hm.found hc hf hfound
    rw [hT]
    exact ⟨s, (Table.lookup_mem hl).1, hsid⟩

theorem otp_own_step (h : Owned c p) (hf : (c i).Fits) (hm : Move c p i op a p') {r : Row}
    (hr : r ∈ p'.world.state.rows) {otp : CString} (ho : r.otp = some otp) :
    GeneratedFor c p' r.user otp := by
  rcases (hm.change hf).row hr with ⟨s, hs, hsid, hsu, -, hotp | ⟨words, rfl, hotp⟩⟩ |
    ⟨-, -, hnone, -⟩
  · rw [← hsu]
    exact hm.generatedFor (h.otp_own s hs otp (hotp.symm.trans ho))
  · -- the `UPDATE` hits a row of the session's own user
    have hown := h.aims_own i r.id (aims_iff.mpr ⟨_, hm.asks, rfl⟩) s hs hsid
    rw [hsu] at hown
    obtain ⟨user, -, -, -, -, words', hgen, hval⟩ := hm.edge.before (fun h => nomatch h)
    cases hotp.symm.trans ho
    exact ⟨i, words', hown, hm.mem_log.mpr (.inl (World.mem_own.mp hgen)), hval⟩
  · rw [hnone] at ho
    cases ho

theorem compared_own_step (h : Owned c p) (hc : (c i).Complete) (hf : (c i).Fits)
    (hm : Move c p i op a p') {input otp : List Byte} {n : Nat}
    (he : p'.sess j = .ret (.compared input otp n)) :
    ∃ user o, (c j).user = some user ∧ GeneratedFor c p' user o ∧ cstr otp = o.bytes := by
  rcases hm.ended_cases he with he | ⟨rfl, hdone⟩
  · obtain ⟨user, o, hu, hgen, hcstr⟩ := h.compared_own j input otp n he
    exact ⟨user, o, hu, hm.generatedFor hgen, hcstr⟩
  obtain ⟨-, hexit⟩ | ⟨user, hu, hended⟩ := hdone
  · cases hexit
  obtain ⟨id, buf, reply, hevent, hdata⟩ := after_append_singleton.mp hended
  cases hevent
  have hneeds : Needs p j id := needs_iff.mpr ⟨_, hm.asks, rfl⟩
  obtain ⟨r, hr, rfl⟩ := h.needs_row j _ hneeds
  have hown := h.aims_own j _ hneeds.aims r hr rfl
  obtain ⟨o, ho, rfl⟩ := hm.read_otp hc hf hr hdata
  obtain ⟨k, words, hk, hmem, rfl⟩ := h.otp_own r hr o ho
  exact ⟨r.user, _, hown, hm.generatedFor ⟨k, words, hk, hmem, rfl⟩,
    (c k).cstr_fillBuffer_newOtp words buf⟩

theorem step (h : Owned c p) (hc : (c i).Complete) (hf : (c i).Fits)
    (hcare : Careful c p i) (hm : Move c p i op a p') : Owned c p' where
  aims_own _ _ haims _ hr hid := h.aims_own_step hc hf hcare hm haims hr hid
  needs_row _ _ hneeds := h.needs_row_step hc hf hcare hm hneeds
  otp_own _ hr _ ho := h.otp_own_step hf hm hr ho
  compared_own _ _ _ _ he := h.compared_own_step hc hf hm he

end Owned

theorem owned_of_reach (hc : ∀ i, (c i).Complete) (hf : ∀ i, (c i).Fits)
    (hp : Pool.Reach (handlers c) (Careful c) (start c) p) : Owned c p :=
  reach_invariant (owned_start c) (fun _ i _ _ _ h hcare hm => h.step (hc i) (hf i) hcare hm) hp

/-- However careful sessions are interleaved, the users are kept apart, and the `UPDATE` of
`pam_register_otp` changes a row of its own user. -/
theorem sessions_isolated (hc : ∀ i, (c i).Complete) (hf : ∀ i, (c i).Fits)
    (hp : Pool.Reach (handlers c) (Careful c) (start c) p) :
    Owned c p ∧ ∀ i value id, p.Waits i (.exec .registerOtp (.updateStrData value id)) →
      ∃ r ∈ (p.step (handlers c) i).world.state.rows,
        r.id = id ∧ (c i).user = some r.user ∧ r.otp = some value := by
  have hown := owned_of_reach hc hf hp
  refine ⟨hown, fun i value id hw => ?_⟩
  have hm := move_of_reach hp hw
  have hneeds : Needs p i id := needs_iff.mpr ⟨_, hw, rfl⟩
  obtain ⟨s, hs, rfl⟩ := hown.needs_row i id hneeds
  refine ⟨{ s with otp := some value }, ?_, rfl, hown.aims_own i s.id hneeds.aims s hs rfl, rfl⟩
  rw [(hm.evals (hc i) (hf i)).2]
  exact Table.mem_setOtp.mpr ⟨s, hs, by rw [if_pos rfl]⟩

/-- One session each of `ann` and `bob`. -/
def annAndBob : Login → Call
  | .first => .annEarly
  | .second => { Call.annEarly with
      user := some (.ofLit "bob")
      words := some fun _ => 8
      typed := some (.ofLit "88888") }

theorem annAndBob_normal : ∀ i, (annAndBob i).Normal
  | .first => Call.annEarly_normal
  | .second => Call.smooth_normal (by decide : NameFits (.ofLit "bob") 400)

/-- Their statements take turns and both end with their own password. -/
theorem sessions_isolated_ann_bob :
    Owned annAndBob ((start annAndBob).exec (handlers annAndBob)
      ((List.replicate 25 [.first, .second]).flatten)) :=
  (sessions_isolated (fun i => (annAndBob_normal i).complete) (fun i => (annAndBob_normal i).fits)
    (.exec _ _ .init (by decide +kernel))).1

/-- Two sessions of `ann` and one of `carol`. -/
def annTwiceAndCarol : Option Login → Call
  | some .first => .annEarly
  | some .second => { Call.annEarly with time := ⟨1000, by decide⟩, answered := 1000 }
  | none => { Call.annEarly with
      user := some (.ofLit "carol")
      time := ⟨1000, by decide⟩
      answered := 1000
      words := some fun _ => 8
      typed := some (.ofLit "88888") }

theorem annTwiceAndCarol_normal : ∀ i, (annTwiceAndCarol i).Normal
  | some .first => Call.annEarly_normal
  | some .second => Call.smooth_normal (by decide : NameFits (.ofLit "ann") 1300)
  | none => Call.smooth_normal (by decide : NameFits (.ofLit "carol") 1300)

/-- `ann`'s first session waits before the `UPDATE` of row 1, the second purges this row, and
`carol` gets the id. -/
def idReuse : List (Option Login) :=
  List.replicate 19 (some .first) ++ List.replicate 7 (some .second) ++ List.replicate 10 none

theorem sessions_isolated_fails :
    ¬ ∀ c : Option Login → Call, (∀ i, (c i).Complete) → (∀ i, (c i).Fits) → ∀ p,
      Pool.Reach (handlers c) (fun _ _ => True) (start c) p → Owned c p := by
  intro h
  have hown := (h annTwiceAndCarol (fun i => (annTwiceAndCarol_normal i).complete)
    (fun i => (annTwiceAndCarol_normal i).fits) _
    (.exec _ idReuse .init (by decide +kernel))).aims_own
  exact absurd (hown (some .first) 1 (by decide +kernel) ⟨1, .ofLit "carol", none, 1300⟩
    (by decide +kernel) rfl) (by decide +kernel)

end PamSmsauth
