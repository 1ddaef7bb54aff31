import LogosDelivery.Discovery.ExternalService

/-! # Adverts and interests that the plugin holds

When the announce loop is parked with nothing pending and no request on its way, the plugin holds
what the node wants, unless a reply was matched with another wish than the one that was sent: a key
that is stopped and started again begins anew with version `0`, an interest has no version at all,
and a key that is stopped while its old record is being stopped is still started
(`converges`, `not_converged_startedAnew`). -/

namespace LogosDelivery.Discovery.ExternalService

open Lib

/-! ### What the plugin will hold -/

/-- The plugin once it has served the requests. -/
def Plugin.serveAll (plugin : Plugin) (requests : List (Request × Bool)) : Plugin :=
  requests.foldl (fun plugin r => (plugin.serve r.1).1) plugin

theorem Plugin.serveAll_concat (plugin : Plugin) (requests : List (Request × Bool)) (r : Request)
    (loop : Bool) :
    plugin.serveAll (requests ++ [(r, loop)]) = ((plugin.serveAll requests).serve r).1 := by
  simp [Plugin.serveAll]

/-- No start in the queue finds its key held. -/
def StartsFree : Plugin → List (Request × Bool) → Prop
  | _, [] => True
  | plugin, (r, _) :: rest =>
      (∀ key data record, r = .startAdvertising key data record → plugin.adverts key = none) ∧
        StartsFree (plugin.serve r).1 rest

theorem startsFree_concat {r : Request} {loop : Bool} :
    ∀ {plugin : Plugin} {requests : List (Request × Bool)}, StartsFree plugin requests →
      (∀ key data record, r = .startAdvertising key data record →
        (plugin.serveAll requests).adverts key = none) →
      StartsFree plugin (requests ++ [(r, loop)])
  | _, [], _, hnew => ⟨hnew, trivial⟩
  | _, _ :: _, h, hnew => ⟨h.1, startsFree_concat h.2 hnew⟩

/-- A start that finds its key free succeeds, and so does every other request. -/
theorem Plugin.serve_ok {plugin : Plugin} {r : Request}
    (h : ∀ key data record, r = .startAdvertising key data record → plugin.adverts key = none) :
    (plugin.serve r).2 = .ok () := by
  cases r with
  | startAdvertising key data record => simp [Plugin.serve, h key data record rfl]
  | stopAdvertising key => rfl
  | registerInterest key => rfl
  | unregisterInterest key => rfl

namespace ExternalServiceDiscovery

variable {s s' : ExternalServiceDiscovery} {order : IterationOrder String}

/-- The plugin once it has served what is on its way. -/
def settled (s : ExternalServiceDiscovery) : Plugin := s.plugin.serveAll s.requests

theorem settled_request (s : ExternalServiceDiscovery) (r : Request) (loop : Bool) :
    (s.request r loop).settled = (s.settled.serve r).1 := by
  rw [settled, settled, request]
  exact s.plugin.serveAll_concat s.requests r loop

/-- The record of a key that is signed now. -/
def recordOf (s : ExternalServiceDiscovery) (key : String) (data : List UInt8) : Record :=
  ⟨String.ofList (key.toList.drop ServiceKeyPrefix.length), data, s.addresses⟩

/-- What the plugin should hold of an advert. -/
def wanted (s : ExternalServiceDiscovery) (key : String) (advert : Advert) : Held :=
  ⟨advert.data, s.recordOf key advert.data⟩

theorem signRecord_ok {signs : Bool} {key : String} {data : List UInt8} {record : Record}
    (h : s.signRecord signs key data = .ok record) : record = s.recordOf key data := by
  unfold signRecord at h
  split_ifs at h
  cases h
  rfl

/-! ### The invariant -/

/-- What the plugin will hold, for the keys that the node does not want and those it has taken. -/
structure Settles (s : ExternalServiceDiscovery) : Prop where
  absent : ∀ key, s.adverts.lookup key = none → s.settled.adverts key = none
  taken : ∀ key advert, s.adverts.lookup key = some advert → advert.taken = true →
    s.settled.adverts key = some (s.wanted key advert)
  created : ∀ key advert, s.adverts.lookup key = some advert → advert.created < s.created
  interestAbsent : ∀ key, s.interests.lookup key = none → s.settled.interests key = false
  interestTaken : ∀ key interest, s.interests.lookup key = some interest →
    interest.taken = true → s.settled.interests key = true
  interestCreated : ∀ key interest, s.interests.lookup key = some interest →
    interest.created < s.created
  startsFree : StartsFree s.plugin s.requests

/-- An advert that the plugin has not taken, and that need not be stopped first, is not held. -/
def Fresh (s : ExternalServiceDiscovery) (sending : String → Advert → Prop) : Prop :=
  ∀ key advert, s.adverts.lookup key = some advert → advert.taken = false →
    advert.resign = false → sending key advert ∨ s.settled.adverts key = none

/-- The loop waits for the start of this advert, as it is now. -/
def Sending (s : ExternalServiceDiscovery) (key : String) (advert : Advert) : Prop :=
  match s.announceLoop with
  | .starting key' sent _ _ _ _ =>
      key = key' ∧ advert.created = sent.created ∧ advert.version = sent.version
  | _ => False

/-- What the loop knows of the entry whose request it waits for. -/
def PhaseSound (s : ExternalServiceDiscovery) : LoopPhase → Prop
  | .stopping key sent record _ _ _ =>
      sent.created < s.created ∧ s.settled.adverts key = none ∧
        ∀ advert, s.adverts.lookup key = some advert → advert.created = sent.created →
          sent.version ≤ advert.version ∧ advert.taken = false ∧ advert.resign = true ∧
          (advert.version = sent.version →
            advert.data = sent.data ∧ record = s.recordOf key sent.data)
  | .starting key sent _ _ _ reply =>
      sent.created < s.created ∧ (∀ result, reply = some result → result = .ok ()) ∧
        ∀ advert, s.adverts.lookup key = some advert → advert.created = sent.created →
          sent.version ≤ advert.version ∧ advert.taken = false ∧
          (advert.version ≠ sent.version → advert.resign = true) ∧
          (advert.version = sent.version →
            s.settled.adverts key = some (s.wanted key advert))
  | .registering key created _ _ reply =>
      created < s.created ∧ (∀ result, reply = some result → result = .ok ()) ∧
        ∀ interest, s.interests.lookup key = some interest → interest.created = created →
          s.settled.interests key = true
  | _ => True

structure Sound (s : ExternalServiceDiscovery) : Prop where
  settles : s.Settles
  fresh : s.Fresh s.Sending
  phase : s.PhaseSound s.announceLoop
  stopped : s.running = false → s.announceLoop = .notStarted ∧ s.requests = [] ∧
    s.plugin = ⟨fun _ => none, fun _ => false⟩ ∧
    ∀ key advert, s.adverts.lookup key = some advert → advert.taken = false

theorem Sound.new : new.Sound where
  settles :=
    { absent := fun _ _ => rfl
      taken := fun _ _ h => by cases h
      created := fun _ _ h => by cases h
      interestAbsent := fun _ _ => rfl
      interestTaken := fun _ _ h => by cases h
      interestCreated := fun _ _ h => by cases h
      startsFree := trivial }
  fresh _ _ h := by cases h
  phase := trivial
  stopped _ := ⟨rfl, rfl, rfl, fun _ _ h => by cases h⟩

/-! ### A request more -/

theorem Settles.setLoop (h : s.Settles) (phase : LoopPhase) :
    Settles { s with announceLoop := phase } :=
  ⟨h.absent, h.taken, h.created, h.interestAbsent, h.interestTaken, h.interestCreated, h.startsFree⟩

/-- A key that is not held is started, for an advert that is not taken. -/
theorem Settles.requestStart (h : s.Settles) {key : String} {advert : Advert}
    (hfree : s.settled.adverts key = none) (hadvert : s.adverts.lookup key = some advert)
    (htaken : advert.taken = false) (data : List UInt8) (record : Record) (loop : Bool) :
    (s.request (.startAdvertising key data record) loop).Settles := by
  have hserve : (s.settled.serve (.startAdvertising key data record)).1 =
      { s.settled with adverts := Function.update s.settled.adverts key (some ⟨data, record⟩) } := by
    simp [Plugin.serve, hfree]
  refine ⟨?_, ?_, h.created, ?_, ?_, h.interestCreated, ?_⟩
  · intro key' hnone
    have hne : key' ≠ key := by
      rintro rfl
      exact absurd (hadvert.symm.trans hnone) (by simp)
    rw [settled_request, hserve]
    exact (Function.update_of_ne hne _ _).trans (h.absent key' hnone)
  · intro key' advert' hadvert' htaken'
    have hne : key' ≠ key := by
      rintro rfl
      obtain rfl := Option.some.inj (hadvert.symm.trans hadvert')
      rw [htaken] at htaken'
      cases htaken'
    rw [settled_request, hserve]
    exact (Function.update_of_ne hne _ _).trans (h.taken key' advert' hadvert' htaken')
  · intro key' hnone
    rw [settled_request, hserve]
    exact h.interestAbsent key' hnone
  · intro key' interest hinterest htaken'
    rw [settled_request, hserve]
    exact h.interestTaken key' interest hinterest htaken'
  · apply startsFree_concat h.startsFree
    intro key' data' record' heq
    cases heq
    exact hfree

/-- A key is stopped whose advert, if there is one, is not taken. -/
theorem Settles.requestStop (h : s.Settles) {key : String}
    (hfree : ∀ advert, s.adverts.lookup key = some advert → advert.taken = false) (loop : Bool) :
    (s.request (.stopAdvertising key) loop).Settles := by
  refine ⟨?_, ?_, h.created, ?_, ?_, h.interestCreated, ?_⟩
  · intro key' hnone
    rw [settled_request]
    by_cases hkey : key' = key
    · rw [hkey]
      exact Function.update_self _ _ _
    · exact (Function.update_of_ne hkey _ _).trans (h.absent key' hnone)
  · intro key' advert' hadvert' htaken'
    have hne : key' ≠ key := by
      rintro rfl
      rw [hfree advert' hadvert'] at htaken'
      cases htaken'
    rw [settled_request]
    exact (Function.update_of_ne hne _ _).trans (h.taken key' advert' hadvert' htaken')
  · intro key' hnone
    rw [settled_request]
    exact h.interestAbsent key' hnone
  · intro key' interest hinterest htaken'
    rw [settled_request]
    exact h.interestTaken key' interest hinterest htaken'
  · apply startsFree_concat h.startsFree
    intro key' data' record' heq
    cases heq

theorem Settles.requestRegister (h : s.Settles) {key : String} {interest : Interest}
    (hinterest : s.interests.lookup key = some interest) (loop : Bool) :
    (s.request (.registerInterest key) loop).Settles := by
  refine ⟨?_, ?_, h.created, ?_, ?_, h.interestCreated, ?_⟩
  · intro key' hnone
    rw [settled_request]
    exact h.absent key' hnone
  · intro key' advert' hadvert' htaken'
    rw [settled_request]
    exact h.taken key' advert' hadvert' htaken'
  · intro key' hnone
    have hne : key' ≠ key := by
      rintro rfl
      exact absurd (hinterest.symm.trans hnone) (by simp)
    rw [settled_request]
    exact (Function.update_of_ne hne _ _).trans (h.interestAbsent key' hnone)
  · intro key' interest' hinterest' htaken'
    rw [settled_request]
    by_cases hkey : key' = key
    · rw [hkey]
      exact Function.update_self _ _ _
    · exact (Function.update_of_ne hkey _ _).trans (h.interestTaken key' interest' hinterest' htaken')
  · apply startsFree_concat h.startsFree
    intro key' data' record' heq
    cases heq

/-! ### A pass of the loop -/

/-- No reply is awaited. -/
structure Ready (s : ExternalServiceDiscovery) : Prop where
  settles : s.Settles
  fresh : s.Fresh (fun _ _ => False)
  running : s.running = true

theorem Ready.announceInterests (h : s.Ready) (allTaken : Bool) :
    ∀ todo, (s.announceInterests allTaken todo).Sound
  | [] => by
      refine ⟨h.settles.setLoop _, ?_, trivial, ?_⟩
      · intro key advert hadvert htaken hresign
        exact Or.inr ((h.fresh key advert hadvert htaken hresign).resolve_left id)
      · intro hstopped
        exact absurd (h.running.symm.trans hstopped) (by decide)
  | key :: todo => by
      have ih := h.announceInterests allTaken todo
      unfold ExternalServiceDiscovery.announceInterests
      cases hinterest : s.interests.lookup key with
      | none => exact ih
      | some interest =>
          dsimp only
          split_ifs
          · exact ih
          · have hsettles := h.settles.requestRegister hinterest true
            refine ⟨hsettles.setLoop _, ?_, ?_, ?_⟩
            · intro key' advert hadvert htaken hresign
              refine Or.inr ?_
              have hfree := (h.fresh key' advert hadvert htaken hresign).resolve_left id
              change (s.request (.registerInterest key) true).settled.adverts key' = none
              rw [settled_request]
              exact hfree
            · refine ⟨h.settles.interestCreated key interest hinterest, ?_, ?_⟩
              · intro result hresult
                cases hresult
              · intro interest' _ _
                change (s.request (.registerInterest key) true).settled.interests key = true
                rw [settled_request]
                exact Function.update_self _ _ _
            · intro hstopped
              exact absurd (h.running.symm.trans hstopped) (by decide)

/-- The loop begins to send an advert that is to be stopped first. -/
theorem Ready.sendStop (h : s.Ready) {key : String} {advert : Advert}
    (hadvert : s.adverts.lookup key = some advert) (htaken : advert.taken = false)
    (hresign : advert.resign = true) (todo : List String) (allTaken : Bool) :
    Sound { s.request (.stopAdvertising key) true with
      announceLoop := .stopping key advert (s.recordOf key advert.data) todo allTaken none } := by
  have hopen : ∀ advert', s.adverts.lookup key = some advert' → advert'.taken = false := by
    intro advert' hadvert'
    obtain rfl := Option.some.inj (hadvert.symm.trans hadvert')
    exact htaken
  have hsettles := h.settles.requestStop hopen true
  have hfree : (s.request (.stopAdvertising key) true).settled.adverts key = none := by
    rw [settled_request]
    exact Function.update_self _ _ _
  refine ⟨hsettles.setLoop _, ?_, ⟨h.settles.created key advert hadvert, hfree, ?_⟩, ?_⟩
  · intro key' advert' hadvert' htaken' hresign'
    refine Or.inr ?_
    have hfree' := (h.fresh key' advert' hadvert' htaken' hresign').resolve_left id
    have hne : key' ≠ key := by
      rintro rfl
      obtain rfl := Option.some.inj (hadvert.symm.trans hadvert')
      rw [hresign] at hresign'
      cases hresign'
    change (s.request (.stopAdvertising key) true).settled.adverts key' = none
    rw [settled_request]
    exact (Function.update_of_ne hne _ _).trans hfree'
  · intro advert' hadvert' _
    obtain rfl := Option.some.inj (hadvert.symm.trans hadvert')
    exact ⟨le_rfl, htaken, hresign, fun _ => ⟨rfl, rfl⟩⟩
  · intro hstopped
    exact absurd (h.running.symm.trans hstopped) (by decide)

/-- The loop begins to send an advert that is not held. -/
theorem Ready.sendStart (h : s.Ready) {key : String} {advert : Advert}
    (hadvert : s.adverts.lookup key = some advert) (htaken : advert.taken = false)
    (hresign : advert.resign = false) (todo : List String) (allTaken : Bool) :
    Sound { s.request (.startAdvertising key advert.data (s.recordOf key advert.data)) true with
      announceLoop := .starting key advert (s.recordOf key advert.data) todo allTaken none } := by
  have hfree := (h.fresh key advert hadvert htaken hresign).resolve_left id
  have hsettles := h.settles.requestStart hfree hadvert htaken advert.data
    (s.recordOf key advert.data) true
  have hheld : (s.request (.startAdvertising key advert.data (s.recordOf key advert.data))
      true).settled.adverts =
      Function.update s.settled.adverts key (some (s.wanted key advert)) := by
    rw [settled_request]
    simp [Plugin.serve, hfree, wanted]
  refine ⟨hsettles.setLoop _, ?_, ⟨h.settles.created key advert hadvert, ?_, ?_⟩, ?_⟩
  · intro key' advert' hadvert' htaken' hresign'
    by_cases hkey : key' = key
    · subst hkey
      obtain rfl := Option.some.inj (hadvert.symm.trans hadvert')
      exact Or.inl ⟨rfl, rfl, rfl⟩
    · have hfree' := (h.fresh key' advert' hadvert' htaken' hresign').resolve_left id
      refine Or.inr ?_
      change (s.request _ true).settled.adverts key' = none
      rw [hheld]
      exact (Function.update_of_ne hkey _ _).trans hfree'
  · intro result hresult
    cases hresult
  · intro advert' hadvert' _
    obtain rfl := Option.some.inj (hadvert.symm.trans hadvert')
    refine ⟨le_rfl, htaken, fun hne => absurd rfl hne, fun _ => ?_⟩
    change (s.request _ true).settled.adverts key = _
    rw [hheld]
    exact Function.update_self _ _ _
  · intro hstopped
    exact absurd (h.running.symm.trans hstopped) (by decide)

theorem Ready.announceAdverts (h : s.Ready) (signs : Bool) :
    ∀ (todo : List String) (allTaken : Bool),
      (ExternalServiceDiscovery.announceAdverts order signs s allTaken todo).Sound
  | [], allTaken => h.announceInterests allTaken _
  | key :: todo, allTaken => by
      have ih := h.announceAdverts signs todo
      unfold ExternalServiceDiscovery.announceAdverts
      cases hadvert : s.adverts.lookup key with
      | none => exact ih allTaken
      | some advert =>
          dsimp only
          split
          · exact ih allTaken
          · rename_i htaken
            have hopen : advert.taken = false := by simpa using htaken
            cases hrecord : s.signRecord signs key advert.data with
            | error e => exact ih false
            | ok record =>
                obtain rfl := signRecord_ok hrecord
                dsimp only
                split
                next hresign =>
                  exact h.sendStop hadvert hopen hresign todo allTaken
                next hresign =>
                  exact h.sendStart hadvert hopen (by simpa using hresign) todo allTaken

theorem Sound.isRunning (h : s.Sound) (hloop : s.announceLoop ≠ .notStarted) :
    s.running = true := by
  cases hrunning : s.running with
  | true => rfl
  | false => exact absurd (h.stopped hrunning).1 hloop

theorem Sound.ready (h : s.Sound) (hrunning : s.running = true)
    (hsending : ∀ key advert, ¬ s.Sending key advert) : s.Ready := by
  refine ⟨h.settles, ?_, hrunning⟩
  intro key advert hadvert htaken hresign
  exact Or.inr ((h.fresh key advert hadvert htaken hresign).resolve_left (hsending key advert))

theorem Ready.announcePending (h : s.Ready) (signs : Bool) :
    (s.announcePending order signs).Sound := by
  have h' : Ready { s with announceWanted := false } :=
    ⟨⟨h.settles.absent, h.settles.taken, h.settles.created, h.settles.interestAbsent,
      h.settles.interestTaken, h.settles.interestCreated, h.settles.startsFree⟩, h.fresh, h.running⟩
  exact h'.announceAdverts signs _ true

/-! ### The replies -/

/-- The condition on a step of the loop: the advert whose old record was stopped is still there, and
the entry that a reply is matched with is the one that was sent. -/
def SameEntryIn (s : ExternalServiceDiscovery) : LoopPhase → Prop
  | .stopping key sent _ _ _ (some _) =>
      ∃ advert, s.adverts.lookup key = some advert ∧ advert.created = sent.created
  | .starting key sent _ _ _ (some _) => ∀ advert, s.adverts.lookup key = some advert →
      advert.version = sent.version → advert.created = sent.created
  | .registering key created _ _ (some _) => ∀ interest, s.interests.lookup key = some interest →
      interest.created = created
  | _ => True

def SameEntry (s : ExternalServiceDiscovery) : Prop := s.SameEntryIn s.announceLoop

/-- An entry is set. -/
theorem Settles.insertAdvert (h : s.Settles) {key : String} {advert : Advert} {created : ℕ}
    (hle : s.created ≤ created) (hcreated : advert.created < created)
    (htaken : advert.taken = true → s.settled.adverts key = some (s.wanted key advert)) :
    Settles { s with adverts := s.adverts.insert key advert, created := created } := by
  refine ⟨?_, ?_, ?_, h.interestAbsent, h.interestTaken, ?_, h.startsFree⟩
  · intro key' hnone
    rw [Table.lookup_insert_eq] at hnone
    split_ifs at hnone
    exact h.absent key' hnone
  · intro key' advert' hadvert' htaken'
    rw [Table.lookup_insert_eq] at hadvert'
    split_ifs at hadvert' with hkey
    · obtain rfl := Option.some.inj hadvert'
      rw [hkey]
      exact htaken htaken'
    · exact h.taken key' advert' hadvert' htaken'
  · intro key' advert' hadvert'
    rw [Table.lookup_insert_eq] at hadvert'
    split_ifs at hadvert'
    · obtain rfl := Option.some.inj hadvert'
      exact hcreated
    · exact (h.created key' advert' hadvert').trans_le hle
  · intro key' interest hinterest
    exact (h.interestCreated key' interest hinterest).trans_le hle

theorem Settles.insertInterest (h : s.Settles) {key : String} {interest : Interest} {created : ℕ}
    (hle : s.created ≤ created) (hcreated : interest.created < created)
    (htaken : interest.taken = true → s.settled.interests key = true) :
    Settles { s with interests := s.interests.insert key interest, created := created } := by
  refine ⟨h.absent, h.taken, ?_, ?_, ?_, ?_, h.startsFree⟩
  · intro key' advert hadvert
    exact (h.created key' advert hadvert).trans_le hle
  · intro key' hnone
    rw [Table.lookup_insert_eq] at hnone
    split_ifs at hnone
    exact h.interestAbsent key' hnone
  · intro key' interest' hinterest' htaken'
    rw [Table.lookup_insert_eq] at hinterest'
    split_ifs at hinterest' with hkey
    · obtain rfl := Option.some.inj hinterest'
      rw [hkey]
      exact htaken htaken'
    · exact h.interestTaken key' interest' hinterest' htaken'
  · intro key' interest' hinterest'
    rw [Table.lookup_insert_eq] at hinterest'
    split_ifs at hinterest'
    · obtain rfl := Option.some.inj hinterest'
      exact hcreated
    · exact (h.interestCreated key' interest' hinterest').trans_le hle

/-- After the stop the start is requested. -/
theorem Sound.afterStop (h : s.Sound) {key : String} {sent : Advert} {record : Record}
    {todo : List String} {allTaken : Bool} {reply : Option (Except String Unit)}
    (hloop : s.announceLoop = .stopping key sent record todo allTaken reply)
    (hsame : ∃ advert, s.adverts.lookup key = some advert ∧ advert.created = sent.created) :
    Sound { s.request (.startAdvertising key sent.data record) true with
      announceLoop := .starting key sent record todo allTaken none } := by
  have hphase := h.phase
  rw [hloop] at hphase
  obtain ⟨hcreated, hfree, hentry⟩ := hphase
  obtain ⟨advert, hadvert, hsame⟩ := hsame
  obtain ⟨-, htaken, hresign, -⟩ := hentry advert hadvert hsame
  have hsettles := h.settles.requestStart hfree hadvert htaken sent.data record true
  have hheld : (s.request (.startAdvertising key sent.data record) true).settled.adverts =
      Function.update s.settled.adverts key (some ⟨sent.data, record⟩) := by
    rw [settled_request]
    simp [Plugin.serve, hfree]
  have hnot : ∀ key' advert', ¬ s.Sending key' advert' := by
    intro key' advert'
    simp [Sending, hloop]
  refine ⟨hsettles.setLoop _, ?_, ⟨hcreated, ?_, ?_⟩, ?_⟩
  · intro key' advert' hadvert' htaken' hresign'
    have hfree' :=
      (h.fresh key' advert' hadvert' htaken' hresign').resolve_left (hnot key' advert')
    have hne : key' ≠ key := by
      rintro rfl
      obtain rfl := Option.some.inj (hadvert.symm.trans hadvert')
      rw [hresign] at hresign'
      cases hresign'
    refine Or.inr ?_
    change (s.request _ true).settled.adverts key' = none
    rw [hheld]
    exact (Function.update_of_ne hne _ _).trans hfree'
  · intro result hresult
    cases hresult
  · intro advert' hadvert' hsame'
    obtain ⟨hversion, htaken', hresign', hdata⟩ := hentry advert' hadvert' hsame'
    refine ⟨hversion, htaken', fun _ => hresign', fun heq => ?_⟩
    obtain ⟨hdata, hrecord⟩ := hdata heq
    change (s.request _ true).settled.adverts key = _
    rw [hheld, Function.update_self, hrecord]
    simp [wanted, recordOf, request, hdata]
  · intro hstopped
    exact absurd ((h.isRunning (by simp [hloop])).symm.trans hstopped) (by decide)

/-- The reply to a start makes its entry taken, or leaves a newer one alone. -/
theorem Sound.advertReply (h : s.Sound) {key : String} {sent : Advert} {record : Record}
    {todo : List String} {allTaken : Bool} {reply : Except String Unit}
    (hloop : s.announceLoop = .starting key sent record todo allTaken (some reply))
    (hsame : ∀ advert, s.adverts.lookup key = some advert → advert.version = sent.version →
      advert.created = sent.created) :
    (s.advertReply key sent (startResult sent reply)).1.Ready := by
  have hphase := h.phase
  rw [hloop] at hphase
  obtain ⟨hcreated, hok, hentry⟩ := hphase
  obtain rfl := hok reply rfl
  have hrunning := h.isRunning (by simp [hloop])
  have hother : ∀ key' advert', s.Sending key' advert' → key' = key ∧
      advert'.created = sent.created ∧ advert'.version = sent.version := by
    intro key' advert' hsending
    simpa [Sending, hloop] using hsending
  unfold ExternalServiceDiscovery.advertReply
  cases hadvert : s.adverts.lookup key with
  | none =>
      refine ⟨h.settles, ?_, hrunning⟩
      intro key' advert' hadvert' htaken' hresign'
      rcases h.fresh key' advert' hadvert' htaken' hresign' with hsending | hfree
      · rw [(hother key' advert' hsending).1, hadvert] at hadvert'
        cases hadvert'
      · exact Or.inr hfree
  | some cur =>
      dsimp only
      split
      next hversion =>
        obtain ⟨-, -, -, hheld⟩ := hentry cur hadvert (hsame cur hadvert hversion)
        refine ⟨h.settles.insertAdvert le_rfl (h.settles.created key cur hadvert)
          (fun _ => hheld hversion), ?_, hrunning⟩
        intro key' advert' hadvert' htaken' hresign'
        change (s.adverts.insert key _).lookup key' = _ at hadvert'
        rw [Table.lookup_insert_eq] at hadvert'
        split_ifs at hadvert' with hkey
        · obtain rfl := Option.some.inj hadvert'
          cases htaken'
        · refine Or.inr ((h.fresh key' advert' hadvert' htaken' hresign').resolve_left ?_)
          exact fun hsending => hkey (hother key' advert' hsending).1
      next hversion =>
        refine ⟨h.settles, ?_, hrunning⟩
        intro key' advert' hadvert' htaken' hresign'
        refine Or.inr ((h.fresh key' advert' hadvert' htaken' hresign').resolve_left ?_)
        intro hsending
        obtain ⟨rfl, -, hsent⟩ := hother key' advert' hsending
        obtain rfl := Option.some.inj (hadvert.symm.trans hadvert')
        exact hversion hsent

theorem Sound.interestReply (h : s.Sound) {key : String} {created : ℕ} {todo : List String}
    {allTaken : Bool} {reply : Except String Unit}
    (hloop : s.announceLoop = .registering key created todo allTaken (some reply))
    (hsame : ∀ interest, s.interests.lookup key = some interest → interest.created = created) :
    (s.interestReply key reply).1.Ready := by
  have hphase := h.phase
  rw [hloop] at hphase
  obtain ⟨-, hok, hentry⟩ := hphase
  obtain rfl := hok reply rfl
  have hready := h.ready (h.isRunning (by simp [hloop])) (by simp [Sending, hloop])
  unfold ExternalServiceDiscovery.interestReply
  cases hinterest : s.interests.lookup key with
  | none => exact hready
  | some interest =>
      have hheld := hentry interest hinterest (hsame interest hinterest)
      exact ⟨hready.settles.insertInterest le_rfl
        (hready.settles.interestCreated key interest hinterest) (fun _ => hheld),
        hready.fresh, hready.running⟩

theorem Sound.resumeLoop (h : s.Sound) (signs : Bool) (hsame : s.SameEntry) :
    (s.resumeLoop order signs).Sound := by
  unfold SameEntry at hsame
  unfold ExternalServiceDiscovery.resumeLoop
  cases hloop : s.announceLoop with
  | notStarted => exact h
  | stopping key sent record todo allTaken reply =>
      cases reply with
      | none => exact h
      | some result =>
          rw [hloop] at hsame
          exact h.afterStop hloop hsame
  | starting key sent record todo allTaken reply =>
      cases reply with
      | none => exact h
      | some result =>
          rw [hloop] at hsame
          exact (h.advertReply hloop hsame).announceAdverts signs todo _
  | registering key created todo allTaken reply =>
      cases reply with
      | none => exact h
      | some result =>
          rw [hloop] at hsame
          exact (h.interestReply hloop hsame).announceInterests _ todo
  | waiting allTaken =>
      dsimp only
      split
      · have hready := h.ready (h.isRunning (by simp [hloop])) (by simp [Sending, hloop])
        exact hready.announcePending signs
      · exact h

/-! ### The plugin -/

theorem recordOf_congr (h : s'.addresses = s.addresses) (key : String) (data : List UInt8) :
    s'.recordOf key data = s.recordOf key data := by
  rw [recordOf, recordOf, h]

theorem wanted_congr (h : s'.addresses = s.addresses) (key : String) (advert : Advert) :
    s'.wanted key advert = s.wanted key advert := by
  rw [wanted, wanted, recordOf_congr h]

/-- The loop keeps what it knows: the entries it may wait for are as they were, and newer ones do not
matter. -/
theorem PhaseSound.keep {phase : LoopPhase} (h : s.PhaseSound phase)
    (haddresses : s'.addresses = s.addresses) (hcreated : s.created ≤ s'.created)
    (hadverts : ∀ key advert, s'.adverts.lookup key = some advert → s.created ≤ advert.created ∨
      s.adverts.lookup key = some advert ∧ s'.settled.adverts key = s.settled.adverts key)
    (hinterests : ∀ key interest, s'.interests.lookup key = some interest →
      s.created ≤ interest.created ∨
        s.interests.lookup key = some interest ∧ s'.settled.interests key = s.settled.interests key)
    (hfree : ∀ key, s.settled.adverts key = none → s'.settled.adverts key = none) :
    s'.PhaseSound phase := by
  cases phase with
  | notStarted => trivial
  | waiting allTaken => trivial
  | stopping key sent record todo allTaken reply =>
      obtain ⟨hlt, hnone, hentry⟩ := h
      refine ⟨hlt.trans_le hcreated, hfree key hnone, fun advert hadvert hsame => ?_⟩
      rcases hadverts key advert hadvert with hnew | ⟨hold, -⟩
      · exact absurd (hsame ▸ hnew) (not_le.mpr hlt)
      · rw [recordOf_congr haddresses]
        exact hentry advert hold hsame
  | starting key sent record todo allTaken reply =>
      obtain ⟨hlt, hok, hentry⟩ := h
      refine ⟨hlt.trans_le hcreated, hok, fun advert hadvert hsame => ?_⟩
      rcases hadverts key advert hadvert with hnew | ⟨hold, hheld⟩
      · exact absurd (hsame ▸ hnew) (not_le.mpr hlt)
      · rw [hheld, wanted_congr haddresses]
        exact hentry advert hold hsame
  | registering key created todo allTaken reply =>
      obtain ⟨hlt, hok, hentry⟩ := h
      refine ⟨hlt.trans_le hcreated, hok, fun interest hinterest hsame => ?_⟩
      rcases hinterests key interest hinterest with hnew | ⟨hold, htaken⟩
      · exact absurd (hsame ▸ hnew) (not_le.mpr hlt)
      · rw [htaken]
        exact hentry interest hold hsame

theorem PhaseSound.deliver {phase : LoopPhase} (h : s.PhaseSound phase) :
    s.PhaseSound (phase.deliver (.ok ())) := by
  cases phase with
  | notStarted => trivial
  | waiting allTaken => trivial
  | stopping key sent record todo allTaken reply => exact h
  | starting key sent record todo allTaken reply =>
      exact ⟨h.1, fun result hresult => (Option.some.inj hresult).symm, h.2.2⟩
  | registering key created todo allTaken reply =>
      exact ⟨h.1, fun result hresult => (Option.some.inj hresult).symm, h.2.2⟩

/-- The plugin serves a request, and the loop may get the reply. -/
theorem Sound.served (h : s.Sound) (hrunning : s'.running = true)
    (hsettled : s'.settled = s.settled) (hfree : StartsFree s'.plugin s'.requests)
    (hadverts : s'.adverts = s.adverts) (hinterests : s'.interests = s.interests)
    (hcreated : s'.created = s.created) (haddresses : s'.addresses = s.addresses)
    (hloop : s'.announceLoop = s.announceLoop ∨
      s'.announceLoop = s.announceLoop.deliver (.ok ())) : s'.Sound := by
  refine ⟨⟨?_, ?_, ?_, ?_, ?_, ?_, hfree⟩, ?_, ?_, ?_⟩
  · rw [hadverts, hsettled]
    exact h.settles.absent
  · intro key advert hadvert htaken
    rw [hadverts] at hadvert
    rw [hsettled, wanted_congr haddresses]
    exact h.settles.taken key advert hadvert htaken
  · rw [hadverts, hcreated]
    exact h.settles.created
  · rw [hinterests, hsettled]
    exact h.settles.interestAbsent
  · rw [hinterests, hsettled]
    exact h.settles.interestTaken
  · rw [hinterests, hcreated]
    exact h.settles.interestCreated
  · intro key advert hadvert htaken hresign
    rw [hadverts] at hadvert
    rw [hsettled]
    rcases h.fresh key advert hadvert htaken hresign with hsending | hnone
    · refine Or.inl ?_
      unfold Sending at hsending ⊢
      rcases hloop with hloop | hloop
      · rw [hloop]
        exact hsending
      · rw [hloop]
        cases hphase : s.announceLoop with
        | starting key' sent record todo allTaken reply =>
            rw [hphase] at hsending
            exact hsending
        | _ => simp [hphase] at hsending
    · exact Or.inr hnone
  · have hphase : s'.PhaseSound s.announceLoop :=
      h.phase.keep haddresses hcreated.ge
        (fun key advert hadvert => Or.inr ⟨hadverts ▸ hadvert, by rw [hsettled]⟩)
        (fun key interest hinterest => Or.inr ⟨hinterests ▸ hinterest, by rw [hsettled]⟩)
        (fun key hnone => by rw [hsettled, hnone])
    rcases hloop with hloop | hloop
    · rw [hloop]
      exact hphase
    · rw [hloop]
      exact hphase.deliver
  · intro hstopped
    exact absurd (hrunning.symm.trans hstopped) (by decide)

theorem Sound.serve (h : s.Sound) : s.serve.Sound := by
  unfold ExternalServiceDiscovery.serve
  cases hrequests : s.requests with
  | nil => exact h
  | cons head rest =>
      obtain ⟨r, loop⟩ := head
      have hfree := h.settles.startsFree
      rw [hrequests] at hfree
      have hsettled : (s.plugin.serve r).1.serveAll rest = s.settled := by
        rw [settled, hrequests]
        rfl
      have hrunning : s.running = true := by
        cases hrunning : s.running with
        | true => rfl
        | false =>
            rw [(h.stopped hrunning).2.1] at hrequests
            cases hrequests
      dsimp only
      rw [Plugin.serve_ok hfree.1]
      refine h.served ?_ ?_ ?_ rfl rfl rfl rfl ?_
      · exact hrunning
      · exact hsettled
      · exact hfree.2
      cases loop with
      | false => exact Or.inl rfl
      | true => exact Or.inr rfl

/-! ### The verbs -/

/-- Nothing is sent before discovery has started. -/
theorem Sound.of_stopped (hloop : s.announceLoop = .notStarted) (hrequests : s.requests = [])
    (hplugin : s.plugin = ⟨fun _ => none, fun _ => false⟩)
    (htaken : ∀ key advert, s.adverts.lookup key = some advert → advert.taken = false)
    (hcreated : ∀ key advert, s.adverts.lookup key = some advert → advert.created < s.created)
    (hitaken : ∀ key interest, s.interests.lookup key = some interest → interest.taken = false)
    (hicreated : ∀ key interest, s.interests.lookup key = some interest →
      interest.created < s.created) : s.Sound := by
  have hsettled : s.settled = ⟨fun _ => none, fun _ => false⟩ := by
    rw [settled, hrequests, hplugin]
    rfl
  refine ⟨⟨?_, ?_, hcreated, ?_, ?_, hicreated, ?_⟩, ?_, ?_, fun _ =>
    ⟨hloop, hrequests, hplugin, htaken⟩⟩
  · intro key _
    rw [hsettled]
  · intro key advert hadvert htaken'
    rw [htaken key advert hadvert] at htaken'
    cases htaken'
  · intro key _
    rw [hsettled]
  · intro key interest hinterest htaken'
    rw [hitaken key interest hinterest] at htaken'
    cases htaken'
  · rw [hrequests]
    trivial
  · intro key advert _ _ _
    refine Or.inr ?_
    rw [hsettled]
  · rw [hloop]
    trivial

theorem Sound.interest_open (h : s.Sound) (hstopped : s.running = false) (key : String)
    (interest : Interest) (hinterest : s.interests.lookup key = some interest) :
    interest.taken = false := by
  obtain ⟨-, hrequests, hplugin, -⟩ := h.stopped hstopped
  by_contra htaken
  have hheld := h.settles.interestTaken key interest hinterest (by simpa using htaken)
  rw [settled, hrequests, hplugin] at hheld
  cases hheld

/-- An entry of before that is left alone, or changed and to be stopped first. -/
def Touched (s s' : ExternalServiceDiscovery) (advert advert' : Advert) : Prop :=
  advert' = advert ∧ (s'.addresses = s.addresses ∨ s.running = false) ∨
    advert'.created = advert.created ∧ advert'.version = advert.version + 1 ∧
      advert'.taken = false ∧ advert'.resign = true

/-- A send that is under way when adverts change. -/
theorem PhaseSound.touch {phase : LoopPhase} (h : s.PhaseSound phase)
    (hstarted : phase ≠ .notStarted → s.running ≠ false) (hsettled : s'.settled = s.settled)
    (hinterests : s'.interests = s.interests) (hcreated : s'.created = s.created)
    (hsome : ∀ key advert', s'.adverts.lookup key = some advert' →
      ∃ advert, s.adverts.lookup key = some advert ∧ Touched s s' advert advert') :
    s'.PhaseSound phase := by
  cases phase with
  | notStarted => trivial
  | waiting allTaken => trivial
  | stopping key sent record todo allTaken reply =>
      obtain ⟨hlt, hfree, hentry⟩ := h
      refine ⟨by rw [hcreated]; exact hlt, by rw [hsettled]; exact hfree, ?_⟩
      intro advert' hadvert' hsame
      obtain ⟨advert, hadvert, htouched⟩ := hsome key advert' hadvert'
      rcases htouched with ⟨rfl, hkept⟩ | ⟨hcreated', hversion', hopen, hstop⟩
      · obtain ⟨hle, hopen, hstop, hdata⟩ := hentry _ hadvert hsame
        refine ⟨hle, hopen, hstop, fun heq => ⟨(hdata heq).1, ?_⟩⟩
        rw [(hdata heq).2, recordOf_congr (hkept.resolve_right (hstarted nofun))]
      · obtain ⟨hle, -⟩ := hentry advert hadvert (hcreated'.symm.trans hsame)
        exact ⟨by omega, hopen, hstop, fun heq => by omega⟩
  | starting key sent record todo allTaken reply =>
      obtain ⟨hlt, hok, hentry⟩ := h
      refine ⟨by rw [hcreated]; exact hlt, hok, ?_⟩
      intro advert' hadvert' hsame
      obtain ⟨advert, hadvert, htouched⟩ := hsome key advert' hadvert'
      rcases htouched with ⟨rfl, hkept⟩ | ⟨hcreated', hversion', hopen, hstop⟩
      · obtain ⟨hle, hopen, hstop, hheld⟩ := hentry _ hadvert hsame
        refine ⟨hle, hopen, hstop, fun heq => ?_⟩
        rw [hsettled, wanted_congr (hkept.resolve_right (hstarted nofun))]
        exact hheld heq
      · obtain ⟨hle, -⟩ := hentry advert hadvert (hcreated'.symm.trans hsame)
        exact ⟨by omega, hopen, fun _ => hstop, fun heq => by omega⟩
  | registering key created todo allTaken reply =>
      obtain ⟨hlt, hok, hentry⟩ := h
      refine ⟨by rw [hcreated]; exact hlt, hok, ?_⟩
      rw [hinterests, hsettled]
      exact hentry

/-- Adverts change, and none is added or dropped. -/
theorem Sound.touch (h : s.Sound) (hrunning : s'.running = s.running)
    (hplugin : s'.plugin = s.plugin) (hrequests : s'.requests = s.requests)
    (hinterests : s'.interests = s.interests) (hcreated : s'.created = s.created)
    (hloop : s'.announceLoop = s.announceLoop)
    (hnone : ∀ key, s'.adverts.lookup key = none → s.adverts.lookup key = none)
    (hsome : ∀ key advert', s'.adverts.lookup key = some advert' →
      ∃ advert, s.adverts.lookup key = some advert ∧ Touched s s' advert advert') : s'.Sound := by
  have hsettled : s'.settled = s.settled := by rw [settled, settled, hplugin, hrequests]
  refine ⟨⟨?_, ?_, ?_, ?_, ?_, ?_, ?_⟩, ?_, ?_, ?_⟩
  · intro key hkey
    rw [hsettled]
    exact h.settles.absent key (hnone key hkey)
  · intro key advert' hadvert' htaken
    obtain ⟨advert, hadvert, htouched⟩ := hsome key advert' hadvert'
    rcases htouched with ⟨rfl, haddresses | hstopped⟩ | ⟨-, -, hopen, -⟩
    · rw [hsettled, wanted_congr haddresses]
      exact h.settles.taken key _ hadvert htaken
    · rw [(h.stopped hstopped).2.2.2 key _ hadvert] at htaken
      cases htaken
    · rw [hopen] at htaken
      cases htaken
  · intro key advert' hadvert'
    obtain ⟨advert, hadvert, htouched⟩ := hsome key advert' hadvert'
    rw [hcreated]
    rcases htouched with ⟨rfl, -⟩ | ⟨hsame, -⟩
    · exact h.settles.created key _ hadvert
    · rw [hsame]
      exact h.settles.created key advert hadvert
  · rw [hinterests, hsettled]
    exact h.settles.interestAbsent
  · rw [hinterests, hsettled]
    exact h.settles.interestTaken
  · rw [hinterests, hcreated]
    exact h.settles.interestCreated
  · rw [hplugin, hrequests]
    exact h.settles.startsFree
  · intro key advert' hadvert' htaken hresign
    obtain ⟨advert, hadvert, htouched⟩ := hsome key advert' hadvert'
    rcases htouched with ⟨rfl, -⟩ | ⟨-, -, -, hstop⟩
    · have hfresh := h.fresh key _ hadvert htaken hresign
      unfold Sending at hfresh ⊢
      rw [hloop, hsettled]
      exact hfresh
    · rw [hstop] at hresign
      cases hresign
  · rw [hloop]
    exact h.phase.touch (fun hne hstopped => hne (h.stopped hstopped).1) hsettled hinterests hcreated
      hsome
  · intro hstopped
    rw [hrunning] at hstopped
    obtain ⟨hloop', hrequests', hplugin', htaken⟩ := h.stopped hstopped
    refine ⟨hloop.trans hloop', hrequests.trans hrequests', hplugin.trans hplugin', ?_⟩
    intro key advert' hadvert'
    obtain ⟨advert, hadvert, htouched⟩ := hsome key advert' hadvert'
    rcases htouched with ⟨rfl, -⟩ | ⟨-, -, hopen, -⟩
    · exact htaken key _ hadvert
    · exact hopen

theorem Sound.wake (h : s.Sound) : Sound { s with announceWanted := true } :=
  ⟨⟨h.settles.absent, h.settles.taken, h.settles.created, h.settles.interestAbsent,
    h.settles.interestTaken, h.settles.interestCreated, h.settles.startsFree⟩, h.fresh, h.phase,
    h.stopped⟩

/-- An advert that was not there is added. -/
theorem Sound.newAdvert (h : s.Sound) {key : String} (hnone : s.adverts.lookup key = none)
    (data : List UInt8) :
    Sound { s with
      adverts := s.adverts.insert key { data := data, created := s.created }
      created := s.created + 1 } := by
  have hfound : ∀ key' advert',
      (s.adverts.insert key { data := data, created := s.created }).lookup key' = some advert' →
      s.adverts.lookup key' = some advert' ∨ advert' = { data := data, created := s.created } := by
    intro key' advert' hadvert'
    rw [Table.lookup_insert_eq] at hadvert'
    split_ifs at hadvert'
    · exact Or.inr (Option.some.inj hadvert').symm
    · exact Or.inl hadvert'
  refine ⟨h.settles.insertAdvert (Nat.le_succ _) (Nat.lt_succ_self _) (fun htaken => ?_), ?_, ?_, ?_⟩
  · cases htaken
  · intro key' advert' hadvert' htaken hresign
    change (s.adverts.insert key _).lookup key' = _ at hadvert'
    rw [Table.lookup_insert_eq] at hadvert'
    split_ifs at hadvert' with hkey
    · refine Or.inr ?_
      rw [hkey]
      exact h.settles.absent key hnone
    · exact h.fresh key' advert' hadvert' htaken hresign
  · refine PhaseSound.keep h.phase rfl (Nat.le_succ _) ?_
      (fun _ _ hinterest => Or.inr ⟨hinterest, rfl⟩) (fun _ hnone => hnone)
    intro key' advert' hadvert'
    rcases hfound key' advert' hadvert' with hadvert | rfl
    · exact Or.inr ⟨hadvert, rfl⟩
    · exact Or.inl le_rfl
  · intro hstopped
    obtain ⟨hloop, hrequests, hplugin, htaken⟩ := h.stopped hstopped
    refine ⟨hloop, hrequests, hplugin, ?_⟩
    intro key' advert' hadvert'
    rcases hfound key' advert' hadvert' with hadvert | rfl
    · exact htaken key' advert' hadvert
    · rfl

theorem Sound.startAdvertising (h : s.Sound) (signs : Bool) (key : String) (data : List UInt8) :
    (s.startAdvertising signs key data).1.Sound := by
  unfold ExternalServiceDiscovery.startAdvertising
  split
  · exact h
  cases s.signRecord signs key data with
  | error e => exact h
  | ok record =>
      dsimp only
      refine Sound.wake ?_
      cases hadvert : s.adverts.lookup key with
      | none => exact h.newAdvert hadvert data
      | some advert =>
          dsimp only
          split
          · refine h.touch rfl rfl rfl rfl rfl rfl ?_ ?_
            · intro key' hnone
              rw [Table.lookup_insert_eq] at hnone
              split_ifs at hnone
              exact hnone
            · intro key' advert' hadvert'
              rw [Table.lookup_insert_eq] at hadvert'
              split_ifs at hadvert' with hkey
              · obtain rfl := Option.some.inj hadvert'
                rw [hkey]
                exact ⟨advert, hadvert, Or.inr ⟨rfl, rfl, rfl, rfl⟩⟩
              · exact ⟨advert', hadvert', Or.inl ⟨rfl, Or.inl rfl⟩⟩
          · exact h

/-- A key is dropped, and the plugin is told to stop it. -/
theorem Sound.stopAdvertising (h : s.Sound) (key : String) : (s.stopAdvertising key).Sound := by
  have hfound : ∀ key' advert', (s.adverts.erase key).lookup key' = some advert' →
      key' ≠ key ∧ s.adverts.lookup key' = some advert' := by
    intro key' advert' hadvert'
    rw [Table.lookup_erase_eq] at hadvert'
    split_ifs at hadvert' with hkey
    exact ⟨hkey, hadvert'⟩
  unfold ExternalServiceDiscovery.stopAdvertising
  cases hrunning : s.running with
  | false =>
      obtain ⟨hloop, hrequests, hplugin, htaken⟩ := h.stopped hrunning
      exact Sound.of_stopped hloop hrequests hplugin
        (fun key' advert' hadvert' => htaken key' advert' (hfound key' advert' hadvert').2)
        (fun key' advert' hadvert' => h.settles.created key' advert' (hfound key' advert' hadvert').2)
        (h.interest_open hrunning) h.settles.interestCreated
  | true =>
      have hstop : (s.request (.stopAdvertising key) false).settled.adverts =
          Function.update s.settled.adverts key none := by
        rw [settled_request]
        rfl
      have hother : ∀ key' advert', (s.adverts.erase key).lookup key' = some advert' →
          (s.request (.stopAdvertising key) false).settled.adverts key' =
            s.settled.adverts key' := by
        intro key' advert' hadvert'
        rw [hstop]
        exact Function.update_of_ne (hfound key' advert' hadvert').1 _ _
      have hfree : ∀ key', s.settled.adverts key' = none →
          (s.request (.stopAdvertising key) false).settled.adverts key' = none := by
        intro key' hnone
        rw [hstop, Function.update_apply]
        split_ifs
        · rfl
        · exact hnone
      have hinterests : (s.request (.stopAdvertising key) false).settled.interests =
          s.settled.interests := by
        rw [settled_request]
        rfl
      rw [if_pos rfl]
      refine ⟨⟨?_, ?_, ?_, ?_, ?_, h.settles.interestCreated, ?_⟩, ?_, ?_, ?_⟩
      · intro key' hnone
        change (s.adverts.erase key).lookup key' = none at hnone
        change (s.request _ false).settled.adverts key' = none
        rw [Table.lookup_erase_eq] at hnone
        split_ifs at hnone with hkey
        · rw [hstop, hkey]
          exact Function.update_self _ _ _
        · exact hfree key' (h.settles.absent key' hnone)
      · intro key' advert' hadvert' htaken
        exact (hother key' advert' hadvert').trans
          (h.settles.taken key' advert' (hfound key' advert' hadvert').2 htaken)
      · intro key' advert' hadvert'
        exact h.settles.created key' advert' (hfound key' advert' hadvert').2
      · intro key' hnone
        change (s.request _ false).settled.interests key' = false
        rw [hinterests]
        exact h.settles.interestAbsent key' hnone
      · intro key' interest hinterest htaken
        change (s.request _ false).settled.interests key' = true
        rw [hinterests]
        exact h.settles.interestTaken key' interest hinterest htaken
      · apply startsFree_concat h.settles.startsFree
        intro key' data record heq
        cases heq
      · intro key' advert' hadvert' htaken hresign
        exact (h.fresh key' advert' (hfound key' advert' hadvert').2 htaken hresign).imp id
          (hfree key')
      · refine PhaseSound.keep h.phase rfl le_rfl ?_ ?_ hfree
        · exact fun key' advert' hadvert' =>
            Or.inr ⟨(hfound key' advert' hadvert').2, hother key' advert' hadvert'⟩
        · exact fun key' interest' hinterest' => Or.inr ⟨hinterest', congrFun hinterests key'⟩
      · intro hstopped
        cases hstopped

theorem Sound.registerInterest (h : s.Sound) (key : String) : (s.registerInterest key).Sound := by
  unfold ExternalServiceDiscovery.registerInterest
  split
  · exact h
  next hkey =>
    have hfound : ∀ key' interest',
        (s.interests.insert key { created := s.created }).lookup key' = some interest' →
        s.interests.lookup key' = some interest' ∨ interest' = { created := s.created } := by
      intro key' interest' hinterest'
      rw [Table.lookup_insert_eq] at hinterest'
      split_ifs at hinterest'
      · exact Or.inr (Option.some.inj hinterest').symm
      · exact Or.inl hinterest'
    refine Sound.wake (s := { s with
      interests := s.interests.insert key { created := s.created }, created := s.created + 1 }) ?_
    refine ⟨h.settles.insertInterest (Nat.le_succ _) (Nat.lt_succ_self _) ?_, h.fresh, ?_, h.stopped⟩
    · intro htaken
      cases htaken
    · refine PhaseSound.keep h.phase rfl (Nat.le_succ _)
        (fun _ _ hadvert => Or.inr ⟨hadvert, rfl⟩) ?_ (fun _ hnone => hnone)
      intro key' interest' hinterest'
      rcases hfound key' interest' hinterest' with hinterest | rfl
      · exact Or.inr ⟨hinterest, rfl⟩
      · exact Or.inl le_rfl

/-- A key is dropped, and the plugin is told to unregister it. -/
theorem Sound.unregisterInterest (h : s.Sound) (key : String) :
    (s.unregisterInterest key).Sound := by
  have hfound : ∀ key' interest', (s.interests.erase key).lookup key' = some interest' →
      key' ≠ key ∧ s.interests.lookup key' = some interest' := by
    intro key' interest' hinterest'
    rw [Table.lookup_erase_eq] at hinterest'
    split_ifs at hinterest' with hkey
    exact ⟨hkey, hinterest'⟩
  unfold ExternalServiceDiscovery.unregisterInterest
  cases hrunning : s.running with
  | false =>
      obtain ⟨hloop, hrequests, hplugin, htaken⟩ := h.stopped hrunning
      refine Sound.of_stopped hloop hrequests hplugin htaken h.settles.created ?_ ?_
      · exact fun key' interest' hinterest' =>
          h.interest_open hrunning key' interest' (hfound key' interest' hinterest').2
      · exact fun key' interest' hinterest' =>
          h.settles.interestCreated key' interest' (hfound key' interest' hinterest').2
  | true =>
      have hadverts : (s.request (.unregisterInterest key) false).settled.adverts =
          s.settled.adverts := by
        rw [settled_request]
        rfl
      have hdrop : (s.request (.unregisterInterest key) false).settled.interests =
          Function.update s.settled.interests key false := by
        rw [settled_request]
        rfl
      have hother : ∀ key' interest', (s.interests.erase key).lookup key' = some interest' →
          (s.request (.unregisterInterest key) false).settled.interests key' =
            s.settled.interests key' := by
        intro key' interest' hinterest'
        rw [hdrop]
        exact Function.update_of_ne (hfound key' interest' hinterest').1 _ _
      rw [if_pos rfl]
      refine ⟨⟨?_, ?_, h.settles.created, ?_, ?_, ?_, ?_⟩, ?_, ?_, ?_⟩
      · intro key' hnone
        change (s.request _ false).settled.adverts key' = none
        rw [hadverts]
        exact h.settles.absent key' hnone
      · intro key' advert' hadvert' htaken
        change (s.request _ false).settled.adverts key' = _
        rw [hadverts]
        exact h.settles.taken key' advert' hadvert' htaken
      · intro key' hnone
        change (s.interests.erase key).lookup key' = none at hnone
        change (s.request _ false).settled.interests key' = false
        rw [Table.lookup_erase_eq] at hnone
        rw [hdrop, Function.update_apply]
        split_ifs at hnone ⊢
        · rfl
        · exact h.settles.interestAbsent key' hnone
      · intro key' interest' hinterest' htaken
        exact (hother key' interest' hinterest').trans
          (h.settles.interestTaken key' interest' (hfound key' interest' hinterest').2 htaken)
      · intro key' interest' hinterest'
        exact h.settles.interestCreated key' interest' (hfound key' interest' hinterest').2
      · apply startsFree_concat h.settles.startsFree
        intro key' data record heq
        cases heq
      · intro key' advert' hadvert' htaken hresign
        change _ ∨ (s.request _ false).settled.adverts key' = none
        rw [hadverts]
        exact h.fresh key' advert' hadvert' htaken hresign
      · refine PhaseSound.keep h.phase rfl le_rfl ?_ ?_ ?_
        · exact fun key' advert' hadvert' => Or.inr ⟨hadvert', congrFun hadverts key'⟩
        · exact fun key' interest' hinterest' =>
            Or.inr ⟨(hfound key' interest' hinterest').2, hother key' interest' hinterest'⟩
        · exact fun key' hnone => (congrFun hadverts key').trans hnone
      · intro hstopped
        cases hstopped

theorem Sound.changeAddresses (h : s.Sound) : s.changeAddresses.Sound := by
  unfold ExternalServiceDiscovery.changeAddresses
  dsimp only
  split
  next hwanted =>
    refine h.touch rfl rfl rfl rfl rfl rfl ?_ ?_
    · intro key hnone
      simpa [resignAll] using hnone
    · intro key advert' hadvert'
      obtain ⟨advert, hadvert, rfl⟩ : ∃ advert, s.adverts.lookup key = some advert ∧
          { advert with taken := false, resign := true, version := advert.version + 1 } =
            advert' := by
        simpa [resignAll] using hadvert'
      exact ⟨advert, hadvert, Or.inr ⟨rfl, rfl, rfl, rfl⟩⟩
  next hwanted =>
    refine h.touch rfl rfl rfl rfl rfl rfl (fun _ hnone => hnone) ?_
    intro key advert hadvert
    refine ⟨advert, hadvert, Or.inl ⟨rfl, Or.inr ?_⟩⟩
    have hlen : 0 < s.adverts.len :=
      List.length_pos_of_mem (Table.mem_iff.2 ⟨advert, hadvert⟩)
    by_contra hrunning
    exact hwanted ⟨by simpa using hrunning, hlen⟩

theorem Sound.startDiscovery (h : s.Sound) (signs : Bool) :
    (s.startDiscovery order signs).Sound := by
  unfold ExternalServiceDiscovery.startDiscovery
  split
  · exact h
  next hrunning =>
    have hstopped : s.running = false := by simpa using hrunning
    obtain ⟨hloop, hrequests, hplugin, -⟩ := h.stopped hstopped
    dsimp only [resignAll]
    rw [hloop]
    refine Ready.announcePending ?_ signs
    refine Sound.ready ?_ rfl (by simp [Sending])
    refine Sound.of_stopped rfl hrequests hplugin ?_ ?_ ?_ ?_
    · intro key advert' hadvert'
      obtain ⟨advert, -, rfl⟩ : ∃ advert, s.adverts.lookup key = some advert ∧
          { advert with taken := false, resign := true, version := advert.version + 1 } =
            advert' := by
        simpa using hadvert'
      rfl
    · intro key advert' hadvert'
      obtain ⟨advert, hadvert, rfl⟩ : ∃ advert, s.adverts.lookup key = some advert ∧
          { advert with taken := false, resign := true, version := advert.version + 1 } =
            advert' := by
        simpa using hadvert'
      exact h.settles.created key advert hadvert
    · intro key interest' hinterest'
      obtain ⟨interest, -, rfl⟩ : ∃ interest, s.interests.lookup key = some interest ∧
          { interest with taken := false } = interest' := by
        simpa using hinterest'
      rfl
    · intro key interest' hinterest'
      obtain ⟨interest, hinterest, rfl⟩ : ∃ interest, s.interests.lookup key = some interest ∧
          { interest with taken := false } = interest' := by
        simpa using hinterest'
      exact h.settles.interestCreated key interest hinterest

/-! ### Runs -/

/-- The condition of an action, in the state in which it is done. -/
def Meets (s : ExternalServiceDiscovery) : Action → Prop
  | .resumeLoop _ => s.SameEntry
  | _ => True

theorem Sound.step (h : s.Sound) {action : Action} (hmeets : s.Meets action) :
    (s.step order action).Sound := by
  cases action with
  | startDiscovery signs => exact h.startDiscovery signs
  | startAdvertising signs key data => exact h.startAdvertising signs key data
  | stopAdvertising key => exact h.stopAdvertising key
  | registerInterest key => exact h.registerInterest key
  | unregisterInterest key => exact h.unregisterInterest key
  | changeAddresses => exact h.changeAddresses
  | serve => exact h.serve
  | resumeLoop signs => exact h.resumeLoop signs hmeets

theorem sound_after {actions : List Action}
    (h : AllSteps (fun past action => (after order past).Meets action) actions) :
    (after order actions).Sound := by
  refine run_induction (P := fun actions => (after order actions).Sound) Sound.new ?_ actions h
  intro past action hmeets ih
  rw [after, run_concat]
  exact ih.step hmeets

/-- The loop waits for a change, the plugin has taken all, and no request is on its way. -/
def Quiet (s : ExternalServiceDiscovery) : Prop :=
  s.announceLoop.parked ∧ s.pendingAnnouncements = 0 ∧ s.requests.isEmpty

instance : DecidablePred Quiet := fun _ => inferInstanceAs (Decidable (_ ∧ _ ∧ _))

/-- The plugin holds what the node wants. -/
def Converged (s : ExternalServiceDiscovery) : Prop :=
  (∀ key, s.plugin.adverts key = (s.adverts.lookup key).map (s.wanted key)) ∧
    ∀ key, s.plugin.interests key = true ↔ key ∈ s.interests

theorem taken_of_pending (h : s.pendingAnnouncements = 0) :
    (∀ key advert, s.adverts.lookup key = some advert → advert.taken = true) ∧
      ∀ key interest, s.interests.lookup key = some interest → interest.taken = true := by
  obtain ⟨hadverts, hinterests⟩ := Nat.add_eq_zero_iff.1 h
  rw [List.countP_eq_zero] at hadverts hinterests
  constructor
  · intro key advert hadvert
    simpa using hadverts ⟨key, advert⟩ (AList.mem_lookup_iff.1 hadvert)
  · intro key interest hinterest
    simpa using hinterests ⟨key, interest⟩ (AList.mem_lookup_iff.1 hinterest)

theorem Settles.converged (h : s.Settles) (hpending : s.pendingAnnouncements = 0)
    (hrequests : s.requests = []) : s.Converged := by
  have hsettled : s.settled = s.plugin := by
    rw [settled, hrequests]
    rfl
  obtain ⟨htaken, hitaken⟩ := taken_of_pending hpending
  rw [Converged, ← hsettled]
  constructor
  · intro key
    cases hadvert : s.adverts.lookup key with
    | none => exact h.absent key hadvert
    | some advert => exact h.taken key advert hadvert (htaken key advert hadvert)
  · intro key
    rw [Table.mem_iff]
    cases hinterest : s.interests.lookup key with
    | none => simp [h.interestAbsent key hinterest]
    | some interest => simp [h.interestTaken key interest hinterest (hitaken key interest hinterest)]

/-- In a run in which each reply finds the entry that was sent, or none, and each stop of a resend
the entry that it is for, the plugin holds what the node wants whenever all is quiet. -/
theorem converges {actions : List Action}
    (h : AllSteps (fun past action => (after order past).Meets action) actions)
    (hquiet : (after order actions).Quiet) : (after order actions).Converged :=
  (sound_after h).settles.converged hquiet.2.1 (List.isEmpty_iff.1 hquiet.2.2)

instance (s : ExternalServiceDiscovery) : DecidablePred s.SameEntryIn
  | .stopping key sent _ _ _ (some _) => inferInstanceAs <|
      Decidable (∃ advert ∈ s.adverts.lookup key, advert.created = sent.created)
  | .starting key sent _ _ _ (some _) => inferInstanceAs <|
      Decidable (∀ advert ∈ s.adverts.lookup key,
        advert.version = sent.version → advert.created = sent.created)
  | .registering key created _ _ (some _) => inferInstanceAs <|
      Decidable (∀ interest ∈ s.interests.lookup key, interest.created = created)
  | .stopping _ _ _ _ _ none => .isTrue trivial
  | .starting _ _ _ _ _ none => .isTrue trivial
  | .registering _ _ _ _ none => .isTrue trivial
  | .notStarted => .isTrue trivial
  | .waiting _ => .isTrue trivial

instance (s : ExternalServiceDiscovery) : DecidablePred s.Meets
  | .resumeLoop _ => inferInstanceAs (Decidable (s.SameEntryIn s.announceLoop))
  | .startDiscovery _ => .isTrue trivial
  | .startAdvertising _ _ _ => .isTrue trivial
  | .stopAdvertising _ => .isTrue trivial
  | .registerInterest _ => .isTrue trivial
  | .unregisterInterest _ => .isTrue trivial
  | .changeAddresses => .isTrue trivial
  | .serve => .isTrue trivial

def inOrder : IterationOrder String := ⟨id, fun l => .refl l⟩

theorem converges_once : (after inOrder [.startDiscovery true, .startAdvertising true "service:a" [1],
    .resumeLoop true, .serve, .resumeLoop true]).Converged :=
  converges (allSteps_of_get (by decide +kernel)) (by decide +kernel)

theorem not_converged_startedAnew : ¬ ∀ (order : IterationOrder String) (actions : List Action),
    (after order actions).Quiet → (after order actions).Converged := by
  intro h
  have hconverged := h inOrder [.startDiscovery true, .startAdvertising true "service:a" [1],
    .resumeLoop true, .stopAdvertising "service:a", .startAdvertising true "service:a" [2],
    .serve, .serve, .resumeLoop true, .resumeLoop true] (by decide +kernel)
  have hheld := hconverged.1 "service:a"
  revert hheld
  decide +kernel

end ExternalServiceDiscovery

end LogosDelivery.Discovery.ExternalService
