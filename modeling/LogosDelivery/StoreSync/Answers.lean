import LogosDelivery.StoreSync.PreProcess
import LogosDelivery.StoreSync.Session

/-! # What an answer settles

A session changes the index it runs on: ids that a peer promised are held from the round on in which
they were asked for.  What carries the argument is therefore not the index but what it shows on the
range of an entry, and what may be said there (`Answers`, `answers_answer`).

The two sides may also start at different times and cover different shards.  Each cuts the ranges it
receives at its own lower bound, so that a fingerprint may cover more than what is compared with it;
what matters is that it is never matched by mistake (`TellsOf`).  What is settled in the end are the
elements from a common `floor` on (`lacked`).  Answering an entry moves a part of this debt
to the elements sent and the rest to the answers (`Answers.debts`), and cutting one leaves it as it
is (`askerDebt_clipEntries`). -/

namespace LogosDelivery.StoreSync

/-! ### Answers, whatever the index looks like -/

/-- What a side that holds `own` may say about a range: its elements there, as an answer only if
there are none, or their fingerprint. -/
inductive Describes (own : List SyncID) (r : Slice SyncID) : RangeBody → Prop
  | elements (reconciled : Bool) : (reconciled = true → within own r = []) →
      Describes own r (.itemSet { elements := within own r, reconciled := reconciled })
  | fingerprint : Describes own r (.fingerprint (xorAll ((within own r).map SyncID.hash)))

/-- The answers of a side that holds `own` to an entry. -/
inductive Answers (own : List SyncID) : Entry → List Entry → Prop
  | skip (r : Slice SyncID) : Answers own (r, .skip) [(r, .skip)]
  | same (r : Slice SyncID) :
      Answers own (r, .fingerprint (xorAll ((within own r).map SyncID.hash))) [(r, .skip)]
  | whole {r : Slice SyncID} {f : Fingerprint} {body : RangeBody} : Describes own r body →
      Answers own (r, .fingerprint f) [(r, body)]
  | slices {r : Slice SyncID} {f : Fingerprint} {parts : List (Slice SyncID)}
      {body : Slice SyncID → RangeBody} : Tiles r.a.time r.b.time parts →
      (∀ part ∈ parts, Describes own part (body part)) →
      Answers own (r, .fingerprint f) (parts.map (fun part => (part, body part)))
  | elements {r : Slice SyncID} {set : ItemSet} : set.reconciled = false →
      Answers own (r, .itemSet set)
        [(r, .itemSet { elements := within own r, reconciled := true })]
  | done {r : Slice SyncID} {set : ItemSet} : set.reconciled = true →
      Answers own (r, .itemSet set) [(r, .skip)]

/-- An entry that still wants an answer with elements or fingerprints. -/
def Asks : Entry → Prop
  | (_, .skip) => False
  | (_, .fingerprint _) => True
  | (_, .itemSet set) => set.reconciled = false

/-- Both bounds are times. -/
structure TimeSlice (r : Slice SyncID) : Prop where
  lower : r.a = SyncID.atTime r.a.time
  upper : r.b = SyncID.atTime r.b.time

theorem timeSlice_atTime (s t : ℤ) : TimeSlice ⟨SyncID.atTime s, SyncID.atTime t⟩ := ⟨rfl, rfl⟩

/-- An open answer is about a part of the range of an entry that asks. -/
structure Inside (e e' : Entry) : Prop where
  asks : Asks e
  slice : TimeSlice e'.1
  lower : e.1.a ≤ e'.1.a
  forward : e'.1.a < e'.1.b
  upper : e'.1.b ≤ e.1.b
  of_asks : Asks e' → ∃ f, e.2 = .fingerprint f

theorem Answers.inside {own : List SyncID} {e e' : Entry} {es' : List Entry}
    (h : Answers own e es') (he' : e' ∈ es') (hopen : e'.2 ≠ .skip) (he : TimeSlice e.1)
    (hlt : e.1.a < e.1.b) : Inside e e' := by
  cases h with
  | skip r =>
      obtain rfl := List.mem_singleton.mp he'
      exact absurd rfl hopen
  | same r =>
      obtain rfl := List.mem_singleton.mp he'
      exact absurd rfl hopen
  | whole hbody =>
      obtain rfl := List.mem_singleton.mp he'
      exact ⟨trivial, he, le_rfl, hlt, le_rfl, fun _ => ⟨_, rfl⟩⟩
  | slices htiles hbody =>
      obtain ⟨part, hpart, rfl⟩ := List.mem_map.mp he'
      obtain ⟨s, t, rfl, hs, hst, ht⟩ := htiles.mem hpart
      refine ⟨trivial, timeSlice_atTime s t, ?_, ?_, ?_, fun _ => ⟨_, rfl⟩⟩
      · rw [he.lower]
        exact SyncID.atTime_le_iff.mpr hs
      · exact SyncID.lt_of_time_lt hst
      · rw [he.upper]
        exact SyncID.atTime_le_iff.mpr ht
  | elements hrec =>
      obtain rfl := List.mem_singleton.mp he'
      exact ⟨hrec, he, le_rfl, hlt, le_rfl, fun hasks => absurd hasks (by simp [Asks])⟩
  | done hrec =>
      obtain rfl := List.mem_singleton.mp he'
      exact absurd rfl hopen

/-! ### Debts -/

/-- An entry that says the truth about `other` to a side that holds `own`.  A fingerprint may cover
more than its range, as long as a match with it, over the range or a part, is never a false one. -/
def TellsOf (own other : List SyncID) : Entry → Prop
  | (_, .skip) => True
  | (r, .fingerprint f) => ∀ r' : Slice SyncID, r.a ≤ r'.a → r'.b ≤ r.b →
      xorAll ((within own r').map SyncID.hash) = f →
        ∀ x, inBounds r' x = true → (x ∈ own ↔ x ∈ other)
  | (r, .itemSet set) => set.elements = within other r

/-- Equal fingerprints mean equal elements. -/
def Distinguished (own other : List SyncID) : Prop :=
  ∀ r r', xorAll ((within own r).map SyncID.hash) = xorAll ((within other r').map SyncID.hash) →
    within own r = within other r'

theorem Distinguished.symm {own other : List SyncID} (h : Distinguished own other) :
    Distinguished other own :=
  fun r r' he => (h r' r he.symm).symm

/-- The elements of `own` from `floor` on that `other` lacks. -/
def lacked (floor : ℤ) (own other : List SyncID) : List SyncID :=
  (missing own other).filter (fun x => decide (floor ≤ x.time))

theorem mem_lacked {floor : ℤ} {own other : List SyncID} {x : SyncID} :
    x ∈ lacked floor own other ↔ x ∈ own ∧ x ∉ other ∧ floor ≤ x.time := by
  rw [lacked, List.mem_filter, missing, List.mem_filter, decide_eq_true_eq, decide_eq_true_eq,
    and_assoc]

/-- What the side that answers an entry has to send, `debt` being what the other side lacks. -/
def answererDebt (debt : List SyncID) : Entry → List SyncID
  | (_, .skip) => []
  | (r, _) => within debt r

/-- What the side that sent an entry has to send; a range that it has answered is settled. -/
def askerDebt (debt : List SyncID) : Entry → List SyncID
  | (_, .skip) => []
  | (r, .fingerprint _) => within debt r
  | (r, .itemSet set) => if set.reconciled then [] else within debt r

/-- The elements that answering an entry shows the other side to lack. -/
def sentBy (own : List SyncID) : Entry → List SyncID
  | (r, .itemSet set) => missing (within own r) set.elements
  | _ => []

section Debts

variable {own other : List SyncID}

/-- What is said about a range leaves both debts there. -/
theorem Describes.debts {r : Slice SyncID} {body : RangeBody} (h : Describes own r body)
    (hd : Distinguished other own) (floor : ℤ) (debt : List SyncID) :
    askerDebt (lacked floor own other) (r, body) = within (lacked floor own other) r ∧
      answererDebt debt (r, body) = within debt r ∧ TellsOf other own (r, body) := by
  cases h with
  | fingerprint =>
      refine ⟨rfl, rfl, ?_⟩
      intro r' hlower hupper hmatch x hx
      have hsame := hd r' r hmatch
      have hin : inBounds r x = true := by
        obtain ⟨ha, hb⟩ := inBounds_iff.mp hx
        exact inBounds_iff.mpr ⟨hlower.trans ha, hb.trans hupper⟩
      constructor
      · intro hother
        exact (mem_within.mp (hsame ▸ mem_within.mpr ⟨hother, hx⟩)).1
      · intro hown
        have hmem : x ∈ within own r := mem_within.mpr ⟨hown, hin⟩
        exact (mem_within.mp (hsame.symm ▸ hmem)).1
  | elements reconciled hnil =>
      refine ⟨?_, rfl, rfl⟩
      show (if reconciled then [] else _) = _
      split_ifs with hrec
      · -- there is nothing to send
        rw [eq_comm, List.eq_nil_iff_forall_not_mem]
        intro x hx
        obtain ⟨hmem, hin⟩ := mem_within.mp hx
        have hown := (mem_lacked.mp hmem).1
        have hnone := List.eq_nil_iff_forall_not_mem.mp (hnil hrec) x
        exact hnone (mem_within.mpr ⟨hown, hin⟩)
      · rfl

/-- Where the elements agree nothing is owed. -/
theorem within_lacked_of_same (floor : ℤ) {r : Slice SyncID}
    (hsame : ∀ x, inBounds r x = true → (x ∈ own ↔ x ∈ other)) :
    within (lacked floor own other) r = [] := by
  rw [List.eq_nil_iff_forall_not_mem]
  intro x hx
  obtain ⟨hmem, hin⟩ := mem_within.mp hx
  obtain ⟨hown, hother, _⟩ := mem_lacked.mp hmem
  exact hother ((hsame x hin).mp hown)

/-- The elements missing from a range at or above the floor. -/
theorem missing_eq_within_lacked {floor : ℤ} {r : Slice SyncID} (hfloor : floor ≤ r.a.time) :
    missing (within own r) (within other r) = within (lacked floor own other) r := by
  rw [missing_within, lacked, within, within, List.filter_filter]
  apply List.filter_congr
  intro x _
  cases hin : inBounds r x with
  | false => rfl
  | true =>
      have hle := SyncID.time_le_of_le (inBounds_iff.mp hin).1
      rw [decide_eq_true (hfloor.trans hle), Bool.true_and]

theorem lacked_hash {floor : ℤ} (h : ∀ x ∈ own, x.hash ≠ emptyFingerprint) :
    ∀ x ∈ lacked floor own other, x.hash ≠ emptyFingerprint :=
  fun x hx => h x (mem_lacked.mp hx).1

/-- **Answering an entry.**  The answers say the truth.  The elements sent and the debt of the
answers make up what the answering side owed, and the other side owes what it owed before. -/
theorem Answers.debts {floor : ℤ} {e : Entry} {es' : List Entry} (h : Answers own e es')
    (he : TellsOf own other e) (hslice : TimeSlice e.1)
    (hfloor : ∀ set, e.2 = .itemSet set → floor ≤ e.1.a.time) (hd : Distinguished other own) (hown : ∀ x ∈ own, x.hash ≠ emptyFingerprint)
    (hother : ∀ x ∈ other, x.hash ≠ emptyFingerprint) :
    (∀ e' ∈ es', TellsOf other own e') ∧
      (sentBy own e ++ es'.flatMap (askerDebt (lacked floor own other))).Perm
        (answererDebt (lacked floor own other) e) ∧
      (es'.flatMap (answererDebt (lacked floor other own))).Perm
        (askerDebt (lacked floor other own) e) := by
  cases h with
  | skip r => exact ⟨by simp [TellsOf], List.Perm.refl _, List.Perm.refl _⟩
  | same r =>
      have hsame := he r le_rfl le_rfl rfl
      have hnone := within_lacked_of_same floor hsame
      have hnone' := within_lacked_of_same floor fun x hx => (hsame x hx).symm
      refine ⟨by simp [TellsOf], ?_, ?_⟩
      · simp [sentBy, askerDebt, answererDebt, hnone]
      · simp [askerDebt, answererDebt, hnone']
  | whole hbody =>
      obtain ⟨hasks, hanswers, htells⟩ := hbody.debts hd floor (lacked floor other own)
      refine ⟨by simpa using htells, ?_, ?_⟩
      · simp [sentBy, hasks, answererDebt]
      · simp [hanswers, askerDebt]
  | @slices r f parts body htiles hbody =>
      have hr : r = ⟨SyncID.atTime r.a.time, SyncID.atTime r.b.time⟩ :=
        Slice.ext hslice.lower hslice.upper
      have hpart := fun part hpart => (hbody part hpart).debts hd floor
        (lacked floor other own)
      refine ⟨?_, ?_, ?_⟩
      · intro e' he'
        obtain ⟨part, hmem, rfl⟩ := List.mem_map.mp he'
        exact (hpart part hmem).2.2
      · rw [List.flatMap_map, List.flatMap_congr (fun part hmem => (hpart part hmem).1)]
        show (parts.flatMap _).Perm (within _ r)
        rw [hr]
        exact htiles.perm_within (lacked_hash hown)
      · rw [List.flatMap_map, List.flatMap_congr (fun part hmem => (hpart part hmem).2.1)]
        show (parts.flatMap _).Perm (within _ r)
        rw [hr]
        exact htiles.perm_within (lacked_hash hother)
  | @elements r set hrec =>
      have hset : set.elements = within other r := he
      refine ⟨by simp [TellsOf], ?_, ?_⟩
      · simp [sentBy, hset, missing_eq_within_lacked (hfloor set rfl), askerDebt, answererDebt]
      · simp [askerDebt, answererDebt, hrec]
  | @done r set hrec =>
      have hset : set.elements = within other r := he
      refine ⟨by simp [TellsOf], ?_, ?_⟩
      · simp [sentBy, hset, missing_eq_within_lacked (hfloor set rfl), askerDebt, answererDebt]
      · simp [askerDebt, answererDebt, hrec]

end Debts

/-! ### Cutting at a lower bound -/

/-- The open ranges are time slices that follow one another. -/
structure InOrder (es : List Entry) : Prop where
  slice : ∀ e ∈ openEntries es, TimeSlice e.1 ∧ e.1.a < e.1.b
  follow : (openEntries es).Pairwise (fun e e' => e.1.b ≤ e'.1.a)

theorem openEntries_cons_skip (r : Slice SyncID) (es : List Entry) :
    openEntries ((r, .skip) :: es) = openEntries es :=
  List.filter_cons_of_neg (by simp)

theorem openEntries_cons_open {e : Entry} (h : e.2 ≠ .skip) (es : List Entry) :
    openEntries (e :: es) = e :: openEntries es :=
  List.filter_cons_of_pos (by simpa using h)

theorem InOrder.tail {e : Entry} {es : List Entry} (h : InOrder (e :: es)) : InOrder es := by
  have hsub : (openEntries es).Sublist (openEntries (e :: es)) :=
    (List.sublist_cons_self e es).filter _
  exact ⟨fun e' he' => h.slice e' (hsub.subset he'), h.follow.sublist hsub⟩

/-- A cut below all ranges changes nothing. -/
theorem map_cutAt_above {t : ℤ} {es : List Entry}
    (h : ∀ e ∈ es, SyncID.atTime t ≤ e.1.a ∧ e.1.a < e.1.b) :
    (es.filter (fun e => decide (SyncID.atTime t < e.1.b))).map (cutAt t) = es := by
  have hall : es.filter (fun e => decide (SyncID.atTime t < e.1.b)) = es := by
    rw [List.filter_eq_self]
    intro e he
    exact decide_eq_true ((h e he).1.trans_lt (h e he).2)
  rw [hall]
  refine (List.map_congr_left fun e he => ?_).trans (List.map_id es)
  rw [cutAt, if_neg (not_lt.mpr (SyncID.atTime_le_iff.mp (h e he).1))]
  rfl

theorem cutAt_open (t : ℤ) {e : Entry} (h : e.2 ≠ .skip) : (cutAt t e).2 ≠ .skip := by
  obtain ⟨r, body⟩ := e
  unfold cutAt
  split_ifs
  · cases body with
    | skip => exact absurd rfl h
    | fingerprint f => simp
    | itemSet set => simp
  · exact h

/-- The open entries are those that end after the lower bound, cut there. -/
theorem InOrder.openEntries_clipEntries (t : ℤ) : ∀ {es : List Entry}, InOrder es →
    openEntries (clipEntries t es) =
      ((openEntries es).filter (fun e => decide (SyncID.atTime t < e.1.b))).map (cutAt t)
  | [], _ => rfl
  | (r, body) :: es, h => by
      have ih := h.tail.openEntries_clipEntries t
      by_cases hskip : body = .skip
      · subst hskip
        rw [clipEntries, openEntries_cons_skip, openEntries_cons_skip, ih]
      have hopen : openEntries ((r, body) :: es) = (r, body) :: openEntries es :=
        openEntries_cons_open hskip es
      -- behind a range that ends after the lower bound nothing is cut
      have hrest : SyncID.atTime t < r.b →
          ((openEntries es).filter (fun e => decide (SyncID.atTime t < e.1.b))).map (cutAt t) =
            openEntries es := by
        intro hsplit
        have hfollow := h.follow
        rw [hopen, List.pairwise_cons] at hfollow
        exact map_cutAt_above fun e he =>
          ⟨hsplit.le.trans (hfollow.1 e he), (h.tail.slice e he).2⟩
      rw [clipEntries_open t hskip, hopen]
      split_ifs with holder hcross
      · have hnot : ¬ SyncID.atTime t < r.b := by rwa [← cmp_eq_neg_one_iff]
        rw [openEntries_cons_skip, ih, List.filter_cons_of_neg (by simpa using hnot)]
      · have hsplit : SyncID.atTime t < r.b := cmp_eq_neg_one_iff.mp (not_not.mp holder)
        rw [List.filter_cons_of_pos (by simpa using hsplit), List.map_cons, hrest hsplit,
          openEntries_cons_skip, clip_eq_cutAt hcross,
          openEntries_cons_open (cutAt_open t hskip)]
      · have hsplit : SyncID.atTime t < r.b := cmp_eq_neg_one_iff.mp (not_not.mp holder)
        have hsame : cutAt t (r, body) = (r, body) := if_neg hcross
        rw [List.filter_cons_of_pos (by simpa using hsplit), List.map_cons, hrest hsplit, hsame,
          hopen]

/-- An entry that is cut, or starts at or above the lower bound. -/
structure CutFrom (t : ℤ) (e e' : Entry) : Prop where
  slice : TimeSlice e'.1
  forward : e'.1.a < e'.1.b
  lower : e.1.a ≤ e'.1.a
  above : SyncID.atTime t ≤ e'.1.a
  upper : e'.1.b = e.1.b
  of_start : ∀ {s}, s ≤ e.1.a.time → max s t ≤ e'.1.a.time
  asks : Asks e' → Asks e
  fingerprint : ∀ {f}, e'.2 = .fingerprint f → e.2 = .fingerprint f
  itemSet : ∀ {set}, e'.2 = .itemSet set → ∃ set', e.2 = .itemSet set'
  tells : ∀ {own other}, TellsOf own other e → TellsOf own other e'

theorem cutFrom_cutAt {t : ℤ} {e : Entry} (hslice : TimeSlice e.1) (hlt : e.1.a < e.1.b)
    (hsplit : SyncID.atTime t < e.1.b) : CutFrom t e (cutAt t e) := by
  obtain ⟨r, body⟩ := e
  unfold cutAt
  split_ifs with hcross
  · have hlower : r.a ≤ SyncID.atTime t := (SyncID.lt_atTime_iff.mpr hcross).le
    have hb : TimeSlice ⟨SyncID.atTime t, r.b⟩ := ⟨rfl, hslice.upper⟩
    cases body with
    | skip => exact ⟨hb, hsplit, hlower, le_rfl, rfl, fun hs => max_le (hs.trans hcross.le) le_rfl,
        id, fun h => absurd h (by simp), fun h => absurd h (by simp), id⟩
    | fingerprint f =>
        refine ⟨hb, hsplit, hlower, le_rfl, rfl, fun hs => max_le (hs.trans hcross.le) le_rfl,
          id, id, fun h => absurd h (by simp), ?_⟩
        intro own other htells r' ha hb
        exact htells r' (hlower.trans ha) hb
    | itemSet set =>
        refine ⟨hb, hsplit, hlower, le_rfl, rfl, fun hs => max_le (hs.trans hcross.le) le_rfl,
          id, fun h => absurd h (by simp), fun _ => ⟨set, rfl⟩, ?_⟩
        intro own other hset
        show set.elements.filter _ = within other _
        rw [show set.elements = within other r from hset, within, within, List.filter_filter]
        apply List.filter_congr
        intro x _
        rw [Bool.eq_iff_iff, Bool.and_eq_true, decide_eq_true_eq, inBounds_iff, inBounds_iff]
        exact ⟨fun h => ⟨h.1, h.2.2⟩, fun h => ⟨h.1, hlower.trans h.1, h.2⟩⟩
  · have habove : t ≤ r.a.time := not_lt.mp hcross
    exact ⟨hslice, hlt, le_rfl, SyncID.atTime_le_iff.mpr habove, rfl, fun hs => max_le hs habove,
      id, id, fun h => ⟨_, h⟩, id⟩

/-- Cutting entries leaves what is said about each of them, if nothing is said below the cut. -/
theorem flatMap_cut {t : ℤ} {g : Entry → List SyncID} (hcut : ∀ e, g (cutAt t e) = g e)
    (hbelow : ∀ e : Entry, ¬ SyncID.atTime t < e.1.b → g e = []) (es : List Entry) :
    ((es.filter (fun e => decide (SyncID.atTime t < e.1.b))).map (cutAt t)).flatMap g =
      es.flatMap g := by
  induction es with
  | nil => rfl
  | cons e es ih =>
      rw [List.filter_cons, List.flatMap_cons]
      split_ifs with hkeep
      · rw [List.map_cons, List.flatMap_cons, ih, hcut]
      · rw [ih, hbelow e (by simpa using hkeep), List.nil_append]

section CutDebts

variable {debt : List SyncID} {t : ℤ} (hdebt : ∀ x ∈ debt, x.hash ≠ emptyFingerprint ∧ t ≤ x.time)

include hdebt

/-- Below the lower bound nothing is owed. -/
theorem within_below {r : Slice SyncID} (h : ¬ SyncID.atTime t < r.b) : within debt r = [] := by
  rw [List.eq_nil_iff_forall_not_mem]
  intro x hx
  obtain ⟨hmem, hin⟩ := mem_within.mp hx
  obtain ⟨hhash, hle⟩ := hdebt x hmem
  have hx : x = SyncID.atTime t := le_antisymm ((inBounds_iff.mp hin).2.trans (not_lt.mp h))
    (SyncID.atTime_le_iff.mpr hle)
  rw [hx] at hhash
  exact hhash rfl

theorem within_cut {r : Slice SyncID} (h : r.a.time < t) :
    within debt ⟨SyncID.atTime t, r.b⟩ = within debt r := by
  apply List.filter_congr
  intro x hx
  have hle := SyncID.atTime_le_iff.mpr (hdebt x hx).2
  have hlower : r.a ≤ x := (SyncID.lt_atTime_iff.mpr h).le.trans hle
  rw [Bool.eq_iff_iff, inBounds_iff, inBounds_iff]
  exact ⟨fun hin => ⟨hlower, hin.2⟩, fun hin => ⟨hle, hin.2⟩⟩

/-- A cut leaves both debts of an entry. -/
theorem debts_cutAt (e : Entry) :
    answererDebt debt (cutAt t e) = answererDebt debt e ∧
      askerDebt debt (cutAt t e) = askerDebt debt e := by
  obtain ⟨r, body⟩ := e
  unfold cutAt
  split_ifs with hcross
  · have hwithin := within_cut hdebt hcross
    cases body with
    | skip => exact ⟨rfl, rfl⟩
    | fingerprint f => exact ⟨hwithin, hwithin⟩
    | itemSet set =>
        refine ⟨hwithin, ?_⟩
        show (if set.reconciled then [] else _) = if set.reconciled then [] else _
        rw [hwithin]
  · exact ⟨rfl, rfl⟩

theorem debts_below {e : Entry} (h : ¬ SyncID.atTime t < e.1.b) :
    answererDebt debt e = [] ∧ askerDebt debt e = [] := by
  obtain ⟨r, body⟩ := e
  have hnone := within_below hdebt h
  cases body with
  | skip => exact ⟨rfl, rfl⟩
  | fingerprint f => exact ⟨hnone, hnone⟩
  | itemSet set =>
      refine ⟨hnone, ?_⟩
      show (if set.reconciled then [] else _) = []
      rw [hnone, ite_self]

theorem answererDebt_clipEntries {es : List Entry} (h : InOrder es) :
    (openEntries (clipEntries t es)).flatMap (answererDebt debt) =
      (openEntries es).flatMap (answererDebt debt) := by
  rw [h.openEntries_clipEntries]
  exact flatMap_cut (fun e => (debts_cutAt hdebt e).1)
    (fun e hbelow => (debts_below hdebt hbelow).1) _

theorem askerDebt_clipEntries {es : List Entry} (h : InOrder es) :
    (openEntries (clipEntries t es)).flatMap (askerDebt debt) =
      (openEntries es).flatMap (askerDebt debt) := by
  rw [h.openEntries_clipEntries]
  exact flatMap_cut (fun e => (debts_cutAt hdebt e).2)
    (fun e hbelow => (debts_below hdebt hbelow).2) _

end CutDebts

/-! ### What an index shows -/

/-- On a range and its parts the index shows the peer the elements `own`, and a window that is too
short to be partitioned holds at most `lengthThreshold` elements. -/
structure SeqStorage.ShowsOn (s : SeqStorage) (topics : List PubsubTopic) (own : List SyncID)
    (r : Slice SyncID) : Prop where
  visible : ∀ r' : Slice SyncID, r.a ≤ r'.a → r'.b ≤ r.b →
    s.visible (s.pubsubScope topics) ∅ r' = within own r'
  sparse : r.b.time - r.a.time < s.partitionCount →
    ((s.elements.filter (inBounds r)).length : ℤ) ≤ s.lengthThreshold

namespace SeqStorage

variable {s : SeqStorage} {topics : List PubsubTopic} {own other : List SyncID} {r : Slice SyncID}

theorem WellFormed.describes (h : s.WellFormed)
    (hvisible : s.visible (s.pubsubScope topics) ∅ r = within own r) :
    Describes own r (s.describe (s.pubsubScope topics) ∅ r) := by
  unfold describe
  cases hf : s.findIdxBounds r with
  | none =>
      have hnone : within own r = [] := by rw [← hvisible, h.visible_of_none hf]
      have hdescribes : Describes own r (.itemSet { elements := within own r, reconciled := true }) :=
        Describes.elements true (fun _ => hnone)
      rw [hnone] at hdescribes
      exact hdescribes
  | some slice =>
      dsimp only
      split_ifs
      · rw [h.getFilteredElements_eq hf, hvisible]
        exact Describes.elements false (by simp)
      · rw [← hf, h.computeFingerprintFromSlice_eq, hvisible]
        exact Describes.fingerprint

/-- A range with more than `lengthThreshold` elements is long enough to be partitioned. -/
theorem WellFormed.tiles_of_fingerprint (h : s.WellFormed) (hcount : 2 ≤ s.partitionCount)
    (hshows : s.ShowsOn topics own r) {f : Fingerprint}
    (hd : s.describe (s.pubsubScope topics) ∅ r = .fingerprint f) :
    Tiles r.a.time r.b.time (equalPartitioning r s.partitionCount) := by
  refine equalPartitioning_tiles r (by omega) ?_
  by_contra hshort
  have hsparse := hshows.sparse (by omega)
  unfold describe at hd
  cases hf : s.findIdxBounds r with
  | none => simp [hf] at hd
  | some slice =>
      rw [hf] at hd
      dsimp only at hd
      split_ifs at hd with hlen
      rw [h.slice_length hf] at hlen
      exact hlen hsparse

/-- The answer of an index to an entry on whose range it shows `own`. -/
theorem WellFormed.answers_answer (h : s.WellFormed) (hcount : 2 ≤ s.partitionCount) {e : Entry}
    (hslice : TimeSlice e.1) (hshows : s.ShowsOn topics own e.1) :
    Answers own e (s.answer (s.pubsubScope topics) ∅ e) := by
  obtain ⟨r, body⟩ := e
  have hvisible := hshows.visible r le_rfl le_rfl
  cases body with
  | skip => exact Answers.skip r
  | fingerprint f =>
      show Answers own (r, .fingerprint f) (s.answerFingerprint _ _ r f)
      unfold answerFingerprint
      split_ifs with heq
      · rw [h.computeFingerprintFromSlice_eq, hvisible] at heq
        rw [← heq]
        exact Answers.same r
      · have hdescribes := h.describes hvisible
        cases hd : s.describe (s.pubsubScope topics) ∅ r with
        | skip =>
            rw [hd] at hdescribes
            cases hdescribes
        | itemSet set =>
            rw [hd] at hdescribes
            exact Answers.whole hdescribes
        | fingerprint f' =>
            have htiles := h.tiles_of_fingerprint hcount hshows hd
            refine Answers.slices htiles ?_
            intro part hpart
            obtain ⟨s', t', rfl, hs', _, ht'⟩ := htiles.mem hpart
            refine h.describes (hshows.visible _ ?_ ?_)
            · show r.a ≤ SyncID.atTime s'
              rw [hslice.lower]
              exact SyncID.atTime_le_iff.mpr hs'
            · show SyncID.atTime t' ≤ r.b
              rw [hslice.upper]
              exact SyncID.atTime_le_iff.mpr ht'
  | itemSet set =>
      have hown : ((s.ownRows r).filter (passes (s.pubsubScope topics) ∅)).map (·.1) =
          within own r := by
        rw [← hvisible, ← h.passing_ownRows]
        rfl
      show Answers own (r, .itemSet set) [s.answerItemSet _ _ r set]
      unfold answerItemSet
      split_ifs with hrec
      · rw [hown]
        exact Answers.elements hrec
      · exact Answers.done (by simpa using hrec)

/-- The differences that the answer to an entry finds. -/
theorem WellFormed.found (h : s.WellFormed) {e : Entry} (hshows : s.ShowsOn topics own e.1)
    (htells : TellsOf own other e) (hsorted : ∀ r, (within other r).Pairwise (· < ·)) :
    s.sends (s.pubsubScope topics) ∅ e = (sentBy own e).map SyncID.hash ∧
      ∀ x ∈ s.recvs (s.pubsubScope topics) ∅ e, (∃ set, e.2 = .itemSet set) ∧
        x ∈ within other e.1 ∧ x ∉ own := by
  obtain ⟨r, body⟩ := e
  cases body with
  | skip => exact ⟨rfl, by simp [recvs]⟩
  | fingerprint f => exact ⟨rfl, by simp [recvs]⟩
  | itemSet set =>
      have hset : set.elements = within other r := htells
      have hlist : set.elements.Pairwise (· < ·) := by
        rw [hset]
        exact hsorted r
      have hmerge : s.mergeWith (s.pubsubScope topics) ∅ r set =
          ({} : Exchange).add (set.elements.filter (fun x => decide (x ∉ within own r)),
            (within own r).filter (fun x => decide (x ∉ set.elements))) := by
        rw [mergeWith, mergeLoop_eq _ _ _ {} (by omega), h.passing_ownRows,
          hshows.visible r le_rfl le_rfl, Lib.mergeDifference_eq_filter hlist]
        rw [← hshows.visible r le_rfl le_rfl]
        exact h.visible_sorted _ _ _
      constructor
      · show (s.mergeWith _ _ r set).hashToSend = _
        rw [hmerge]
        rfl
      · intro x hx
        change x ∈ (s.mergeWith _ _ r set).idsToRecv at hx
        rw [hmerge] at hx
        obtain ⟨hmem, hout⟩ := List.mem_filter.mp
          (show x ∈ set.elements.filter (fun x => decide (x ∉ within own r)) by
            simpa [Exchange.add] using hx)
        rw [hset] at hmem
        refine ⟨⟨set, rfl⟩, hmem, fun hown => ?_⟩
        exact of_decide_eq_true hout (mem_within.mpr ⟨hown, (mem_within.mp hmem).2⟩)

end SeqStorage

end LogosDelivery.StoreSync
