import LogosDelivery.Discovery.EnrAddresses

/-! # What an update of the addresses leaves alone

A rebuilt record has the pairs of `Rebuilt`: the scalars, the pairs of the old record that are no
addresses, and the addresses of one prefix.  The loop ends with the longest prefix that fits
(`updatePrefixes_countdown`), so an update changes the sequence number and the addresses only
(`updateEnrAddresses_spec`).  A second update would give the same record, but the sequence number
may take one more byte then, and an address that fitted may have to go (`update_dropsAddress`). -/

namespace LogosDelivery.Discovery

open Lib
open StoreSync (Byte Defect)

variable {A NodeKey Key PublicKey Field : Type} {P : Libp2p A} {K : NodeKeys NodeKey Key}
  {E : EnrLibrary Key PublicKey Field}

/-! ### Pairs by key -/

def pairsOf (pairs : List (String × Field)) (key : String) : List (String × Field) :=
  pairs.filter (fun it => decide (it.1 = key))

section Pairs

variable {record : EnrRecord PublicKey Field} {pk : Key} {scalars : Scalars}
  {fields : List (String × Field)} {replaced : List String} {key : String}

theorem pairsOf_append (pairs fields : List (String × Field)) (key : String) :
    pairsOf (pairs ++ fields) key = pairsOf pairs key ++ pairsOf fields key :=
  List.filter_append pairs fields

theorem tryGet_eq : record.tryGet key = (pairsOf record.pairs key).head?.map Prod.snd := by
  rw [EnrRecord.tryGet, pairsOf, List.head?_filter]

theorem content_eq : E.content pk scalars fields = E.content pk scalars [] ++ fields := by
  simp only [EnrFields.content, List.append_nil]

theorem IpAddress.key_mem (ip : IpAddress) : ip.key ∈ ScalarKeys := by
  cases ip <;> simp [IpAddress.key, ScalarKeys]

theorem mem_scalarKeys {it : String × Field} (h : it ∈ E.content pk scalars []) :
    it.1 ∈ ScalarKeys := by
  have hname : ∀ name ∈ ScalarKeys, ∀ {o : Option Port} {f : Port → Field},
      it ∈ (o.map (fun port => (name, f port))).toList → it.1 ∈ ScalarKeys := by
    intro name hname o f hit
    obtain ⟨port, _, rfl⟩ := Option.map_eq_some_iff.mp (Option.mem_toList.mp hit)
    exact hname
  simp only [EnrFields.content, List.append_nil, List.mem_append] at h
  rcases h with ((h | h) | h) | h
  · rcases List.mem_cons.mp h with rfl | h
    · simp [ScalarKeys]
    · rw [List.mem_singleton.mp h]
      simp [ScalarKeys]
  · obtain ⟨ip, _, rfl⟩ := Option.map_eq_some_iff.mp (Option.mem_toList.mp h)
    exact ip.key_mem
  · exact hname "tcp" (by simp [ScalarKeys]) h
  · exact hname "udp" (by simp [ScalarKeys]) h

theorem pairsOf_content (hkey : key ∉ ScalarKeys) :
    pairsOf (E.content pk scalars fields) key = pairsOf fields key := by
  have hnone : pairsOf (E.content pk scalars []) key = [] := by
    refine List.filter_eq_nil_iff.mpr ?_
    intro it hit heq
    exact hkey (of_decide_eq_true heq ▸ mem_scalarKeys hit)
  rw [content_eq, pairsOf_append, hnone, List.nil_append]

theorem pairsOf_kept (hkey : key ∉ ScalarKeys) (hreplaced : key ∉ replaced) :
    pairsOf (record.kept replaced) key = pairsOf record.pairs key := by
  rw [pairsOf, pairsOf, EnrRecord.kept, List.filter_filter]
  refine List.filter_congr ?_
  intro it _
  by_cases heq : it.1 = key
  · simp [heq, hkey, hreplaced]
  · simp [heq]

theorem pairsOf_kept_replaced (hkey : key ∈ ScalarKeys ∨ key ∈ replaced) :
    pairsOf (record.kept replaced) key = [] := by
  refine List.filter_eq_nil_iff.mpr ?_
  intro it hit heq
  have hmem := (List.mem_filter.mp hit).2
  rw [of_decide_eq_true heq, Bool.and_eq_true, decide_eq_true_eq, decide_eq_true_eq] at hmem
  rcases hkey with hkey | hkey
  · exact hmem.1 hkey
  · exact hmem.2 hkey

end Pairs

/-! ### Rebuilt records -/

variable (P E) in
/-- The address field of the first `n` addresses. -/
def prefixField (sorted : List A) (n : ℕ) : String × Field :=
  (MultiaddrEnrField, E.bytesField (encodeMultiaddrs P.toMultiAddresses (sorted.take n)))

variable (E) in
/-- What a rebuilt record is to hold. -/
def rebuiltContent (record : EnrRecord PublicKey Field) (pk : Key) (scalars : Scalars)
    (field : String × Field) : List (String × Field) :=
  E.content pk scalars (record.kept [field.1] ++ [field])

variable (E) in
/-- Whether it would be small enough. -/
def Fits (record : EnrRecord PublicKey Field) (pk : Key) (scalars : Scalars)
    (field : String × Field) : Prop :=
  E.size (record.seqNum + 1) (rebuiltContent E record pk scalars field) ≤ maxEnrSize

variable (E) in
structure Rebuilt (record : EnrRecord PublicKey Field) (pk : Key) (scalars : Scalars)
    (field : String × Field) (record' : EnrRecord PublicKey Field) : Prop where
  seqNum : record'.seqNum = record.seqNum + 1
  publicKey : record'.publicKey = E.toPublicKey pk
  pairs : record'.pairs.Perm (rebuiltContent E record pk scalars field)

section Rebuild

variable {record record' : EnrRecord PublicKey Field} {pk : Key} {scalars : Scalars}
  {field : String × Field} {sorted : List A} {n : ℕ} {key : String}

section Loop

variable [DecidableEq PublicKey]

theorem rebuild_fits (hkey : record.publicKey = E.toPublicKey pk)
    (hseq : record.seqNum ≠ UInt64.ofNat (2 ^ 64 - 1)) (h : Fits E record pk scalars field) :
    ∃ record', rebuild E record pk scalars [field] = (.ok (), record') ∧
      Rebuilt E record pk scalars field record' := by
  obtain ⟨rebuilt, hinit⟩ := (E.init_isOk _ _ _ _).mpr h
  obtain ⟨hnum, hpub, hpairs⟩ := E.init_ok hinit
  refine ⟨rebuilt, ?_, hnum, hpub, hpairs⟩
  have hinit : E.init (record.seqNum + 1) pk scalars
      (record.kept ([field].map Prod.fst) ++ [field]) = .ok rebuilt := hinit
  rw [rebuild, if_neg (not_not.mpr hkey), if_neg hseq]
  simp only [hinit]

theorem rebuild_tooLarge (hkey : record.publicKey = E.toPublicKey pk)
    (hseq : record.seqNum ≠ UInt64.ofNat (2 ^ 64 - 1)) (h : ¬ Fits E record pk scalars field) :
    ∃ e, rebuild E record pk scalars [field] = (.error e, record) := by
  cases hinit : E.init (record.seqNum + 1) pk scalars
      (record.kept ([field].map Prod.fst) ++ [field]) with
  | error e =>
      refine ⟨"failed to rebuild the record: " ++ e, ?_⟩
      rw [rebuild, if_neg (not_not.mpr hkey), if_neg hseq]
      simp only [hinit]
  | ok rebuilt => exact absurd ((E.init_isOk _ _ _ _).mp ⟨rebuilt, hinit⟩) h

theorem updatePrefixes_fits (hkey : record.publicKey = E.toPublicKey pk)
    (hseq : record.seqNum ≠ UInt64.ofNat (2 ^ 64 - 1)) (lengths : List ℕ)
    (h : Fits E record pk scalars (prefixField P E sorted n)) :
    ∃ record', updatePrefixes P E pk scalars sorted record (n :: lengths) = (.ok (), record') ∧
      Rebuilt E record pk scalars (prefixField P E sorted n) record' := by
  obtain ⟨record', hrebuild, hrecord'⟩ := rebuild_fits hkey hseq h
  refine ⟨record', ?_, hrecord'⟩
  rw [prefixField] at hrebuild
  simp only [updatePrefixes, hrebuild]

theorem updatePrefixes_tooLarge (hkey : record.publicKey = E.toPublicKey pk)
    (hseq : record.seqNum ≠ UInt64.ofNat (2 ^ 64 - 1)) (lengths : List ℕ)
    (h : ¬ Fits E record pk scalars (prefixField P E sorted n)) :
    updatePrefixes P E pk scalars sorted record (n :: lengths) =
      updatePrefixes P E pk scalars sorted record lengths := by
  obtain ⟨e, hrebuild⟩ := rebuild_tooLarge hkey hseq h
  rw [prefixField] at hrebuild
  simp only [updatePrefixes, hrebuild]

variable (P E) in
/-- `n` is the longest length up to `last` whose prefix fits. -/
def LongestFit (record : EnrRecord PublicKey Field) (pk : Key) (scalars : Scalars)
    (sorted : List A) (last n : ℕ) : Prop :=
  n ≤ last ∧ Fits E record pk scalars (prefixField P E sorted n) ∧
    ∀ m, n < m → m ≤ last → ¬ Fits E record pk scalars (prefixField P E sorted m)

/-- The loop finds the longest prefix that fits, if there is one. -/
theorem updatePrefixes_countdown (hkey : record.publicKey = E.toPublicKey pk)
    (hseq : record.seqNum ≠ UInt64.ofNat (2 ^ 64 - 1)) (last : ℕ) :
    (∃ n record', LongestFit P E record pk scalars sorted last n ∧
      Rebuilt E record pk scalars (prefixField P E sorted n) record' ∧
      updatePrefixes P E pk scalars sorted record (countdown last) = (.ok (), record')) ∨
    (∀ n ≤ last, ¬ Fits E record pk scalars (prefixField P E sorted n)) ∧
      ∃ e, updatePrefixes P E pk scalars sorted record (countdown last) = (.error e, record) := by
  induction last with
  | zero =>
      by_cases h : Fits E record pk scalars (prefixField P E sorted 0)
      · obtain ⟨record', hrun, hrecord'⟩ := updatePrefixes_fits hkey hseq [] h
        exact Or.inl ⟨0, record', ⟨le_rfl, h, fun m h0 hm => by omega⟩, hrecord', hrun⟩
      · refine Or.inr ⟨fun n hn => Nat.le_zero.mp hn ▸ h, ?_⟩
        rw [countdown, updatePrefixes_tooLarge hkey hseq [] h]
        exact ⟨_, rfl⟩
  | succ last ih =>
      by_cases h : Fits E record pk scalars (prefixField P E sorted (last + 1))
      · obtain ⟨record', hrun, hrecord'⟩ := updatePrefixes_fits hkey hseq (countdown last) h
        exact Or.inl ⟨last + 1, record', ⟨le_rfl, h, fun m h0 hm => by omega⟩, hrecord', hrun⟩
      · rw [countdown, updatePrefixes_tooLarge hkey hseq _ h]
        have hlast : ∀ m, m ≤ last + 1 → m ≤ last ∨ m = last + 1 := fun m hm => by omega
        rcases ih with ⟨n, record', ⟨hn, hfits, hlonger⟩, hrecord', hrun⟩ | ⟨hnone, hrun⟩
        · refine Or.inl ⟨n, record', ⟨by omega, hfits, ?_⟩, hrecord', hrun⟩
          intro m hnm hm
          rcases hlast m hm with hm | rfl
          · exact hlonger m hnm hm
          · exact h
        · refine Or.inr ⟨?_, hrun⟩
          intro n hn
          rcases hlast n hn with hn | rfl
          · exact hnone n hn
          · exact h

end Loop

/-! ### What is read from a rebuilt record -/

theorem Rebuilt.pairsOf_perm (h : Rebuilt E record pk scalars field record') (key : String) :
    (pairsOf record'.pairs key).Perm (pairsOf (rebuiltContent E record pk scalars field) key) :=
  h.pairs.filter _

/-- A key of which there is one pair. -/
theorem Rebuilt.tryGet (h : Rebuilt E record pk scalars field record') {o : Option (String × Field)}
    (ho : pairsOf (rebuiltContent E record pk scalars field) key = o.toList) :
    record'.tryGet key = o.map Prod.snd := by
  have hperm := h.pairsOf_perm key
  rw [ho] at hperm
  rw [tryGet_eq]
  cases o with
  | none => rw [hperm.eq_nil]; rfl
  | some it => rw [List.perm_singleton.mp hperm]; rfl

theorem pairsOf_rebuiltContent (hkey : key ∉ ScalarKeys) (hfield : key ≠ field.1) :
    pairsOf (rebuiltContent E record pk scalars field) key = pairsOf record.pairs key := by
  rw [rebuiltContent, pairsOf_content hkey, pairsOf_append,
    pairsOf_kept hkey (List.mem_singleton.not.mpr hfield)]
  have hnone : pairsOf [field] key = [] := by simp [pairsOf, hfield.symm]
  rw [hnone, List.append_nil]

theorem pairsOf_rebuiltContent_field (hkey : field.1 ∉ ScalarKeys) :
    pairsOf (rebuiltContent E record pk scalars field) field.1 = [field] := by
  rw [rebuiltContent, pairsOf_content hkey, pairsOf_append,
    pairsOf_kept_replaced (Or.inr List.mem_cons_self), List.nil_append]
  simp [pairsOf]

/-- A scalar is not taken over. -/
theorem pairsOf_rebuiltContent_scalar (hkey : key ∈ ScalarKeys) (hfield : key ≠ field.1) :
    pairsOf (rebuiltContent E record pk scalars field) key =
      pairsOf (E.content pk scalars []) key := by
  rw [rebuiltContent, content_eq, pairsOf_append, pairsOf_append,
    pairsOf_kept_replaced (Or.inl hkey)]
  have hnone : pairsOf [field] key = [] := by simp [pairsOf, hfield.symm]
  rw [hnone, List.append_nil, List.append_nil]

theorem multiaddrEnrField_notMem : MultiaddrEnrField ∉ ScalarKeys := by
  simp [MultiaddrEnrField, ScalarKeys]

theorem IpAddress.key_ne {ip : IpAddress} {key : String} (h : key ∉ ["ip", "ip6"]) :
    ip.key ≠ key := by
  cases ip <;> simp only [IpAddress.key, List.mem_cons, not_or] at h ⊢
  · exact Ne.symm h.1
  · exact Ne.symm h.2.1

theorem pairsOf_option {α : Type} {o : Option α} {f : α → String × Field}
    (h : ∀ a, (f a).1 ≠ key) : pairsOf (o.map f).toList key = [] := by
  cases o with
  | none => rfl
  | some a => simp [pairsOf, h a]

theorem pairsOf_id : pairsOf (E.content pk scalars []) "id" = [("id", E.idField)] := by
  have hip : pairsOf (scalars.ip.map (fun ip => (ip.key, E.ipField ip))).toList "id" = [] :=
    pairsOf_option (fun ip => IpAddress.key_ne (by simp))
  have hport : ∀ {o : Option Port} {name : String}, name ≠ "id" →
      pairsOf (o.map (fun port => (name, E.portField port))).toList "id" = [] :=
    fun hname => pairsOf_option (fun _ => hname)
  simp only [EnrFields.content, pairsOf_append, hip, hport (show "tcp" ≠ "id" by simp),
    hport (show "udp" ≠ "id" by simp)]
  simp [pairsOf]

theorem pairsOf_udp : pairsOf (E.content pk scalars []) "udp" =
    (scalars.udp.map (fun port => ("udp", E.portField port))).toList := by
  have hip : pairsOf (scalars.ip.map (fun ip => (ip.key, E.ipField ip))).toList "udp" = [] :=
    pairsOf_option (fun ip => IpAddress.key_ne (by simp))
  have hudp : pairsOf (scalars.udp.map (fun port => ("udp", E.portField port))).toList "udp" =
      (scalars.udp.map (fun port => ("udp", E.portField port))).toList := by
    cases scalars.udp <;> simp [pairsOf]
  have htcp : pairsOf (scalars.tcp.map (fun port => ("tcp", E.portField port))).toList "udp" = [] :=
    pairsOf_option (by simp)
  simp only [EnrFields.content, pairsOf_append, hip, hudp, htcp]
  simp [pairsOf]

theorem Rebuilt.id (h : Rebuilt E record pk scalars (prefixField P E sorted n) record') :
    (record'.tryGet "id").bind E.readString = some "v4" := by
  have hone : pairsOf (rebuiltContent E record pk scalars (prefixField P E sorted n))
      "id" = (some ("id", E.idField)).toList := by
    rw [pairsOf_rebuiltContent_scalar (by simp [ScalarKeys])
      (by simp [prefixField, MultiaddrEnrField]), pairsOf_id]
    rfl
  rw [h.tryGet hone]
  exact E.readString_id

theorem Rebuilt.udp (h : Rebuilt E record pk scalars (prefixField P E sorted n) record') :
    record'.udp E = scalars.udp := by
  have hone : pairsOf (rebuiltContent E record pk scalars (prefixField P E sorted n))
      "udp" = (scalars.udp.map (fun port => ("udp", E.portField port))).toList := by
    rw [pairsOf_rebuiltContent_scalar (by simp [ScalarKeys])
      (by simp [prefixField, MultiaddrEnrField]), pairsOf_udp]
  rw [EnrRecord.udp, h.tryGet hone]
  cases scalars.udp with
  | none => rfl
  | some port => exact E.readPort_port port

/-- The addresses of a record that fits are read back. -/
theorem Rebuilt.multiaddrs (h : Rebuilt E record pk scalars (prefixField P E sorted n) record')
    (hfits : Fits E record pk scalars (prefixField P E sorted n)) :
    record'.multiaddrs P E = some (sorted.take n) := by
  have hone : pairsOf (rebuiltContent E record pk scalars (prefixField P E sorted n))
      MultiaddrEnrField = (some (prefixField P E sorted n)).toList :=
    pairsOf_rebuiltContent_field multiaddrEnrField_notMem
  have hsize : ∀ a ∈ sorted.take n, enrFraming.Sized (P.buffer a) := by
    intro a ha
    constructor
    · refine List.length_pos_of_ne_nil (fun hnil => ?_)
      have hinit := P.init_buffer a
      rw [hnil, P.init_nil] at hinit
      cases hinit
    · have hmem : prefixField P E sorted n ∈
          rebuiltContent E record pk scalars (prefixField P E sorted n) := by
        rw [rebuiltContent, content_eq]
        simp
      have hframes : (P.buffer a).length ≤
          (encodeMultiaddrs P.toMultiAddresses (sorted.take n)).length := by
        rw [encodeMultiaddrs_eq]
        exact Framing.length_le_of_mem (List.mem_map_of_mem ha)
      have hbytes := (E.length_le_size (record.seqNum + 1) hmem).trans hfits
      exact (hframes.trans hbytes).trans (by decide)
  rw [EnrRecord.multiaddrs, h.tryGet hone]
  show ((E.readBytes (E.bytesField (encodeMultiaddrs P.toMultiAddresses (sorted.take n)))).bind
    fun field => (decodeMultiaddrs P.toMultiAddresses field).toOption) = _
  rw [E.readBytes_bytes]
  show (decodeMultiaddrs P.toMultiAddresses
    (encodeMultiaddrs P.toMultiAddresses (sorted.take n))).toOption = _
  rw [decodeMultiaddrs_encodeMultiaddrs P.toMultiAddresses hsize]
  rfl

/-! ### A second time -/

/-- What a rebuilt record takes over, its own record took over before. -/
theorem Rebuilt.kept_perm (h : Rebuilt E record pk scalars field record') :
    (record'.kept [field.1]).Perm (record.kept [field.1]) := by
  have hperm := h.pairs.filter
    (fun it => decide (it.1 ∉ ScalarKeys) && decide (it.1 ∉ [field.1]))
  have hscalars : (E.content pk scalars []).filter
      (fun it => decide (it.1 ∉ ScalarKeys) && decide (it.1 ∉ [field.1])) = [] := by
    refine List.filter_eq_nil_iff.mpr ?_
    intro it hit
    simp [mem_scalarKeys hit]
  have hfield : [field].filter
      (fun it => decide (it.1 ∉ ScalarKeys) && decide (it.1 ∉ [field.1])) = [] := by simp
  rw [rebuiltContent, content_eq, List.filter_append, List.filter_append, hscalars, hfield,
    List.append_nil, List.nil_append, EnrRecord.kept, List.filter_filter] at hperm
  rw [EnrRecord.kept, EnrRecord.kept]
  simpa only [Bool.and_self] using hperm

theorem content_perm {fields fields' : List (String × Field)} (h : fields.Perm fields') :
    (E.content pk scalars fields).Perm (E.content pk scalars fields') := by
  simp only [EnrFields.content]
  exact h.append_left _

/-- Building a rebuilt record again with an address field. -/
theorem Rebuilt.again (h : Rebuilt E record pk scalars field record') {field' : String × Field}
    (hfield' : field'.1 = field.1) :
    (rebuiltContent E record' pk scalars field').Perm
      (rebuiltContent E record pk scalars field') := by
  rw [rebuiltContent, rebuiltContent, hfield']
  exact content_perm (h.kept_perm.append_right [field'])

theorem Rebuilt.of_again (h : Rebuilt E record pk scalars field record') {field' : String × Field}
    (hfield' : field'.1 = field.1) (hseq : record.seqNum + 1 ≤ record'.seqNum + 1)
    (hfits : Fits E record' pk scalars field') : Fits E record pk scalars field' := by
  rw [Fits, ← E.size_perm (h.again hfield')]
  exact (E.size_mono _ hseq).trans hfits

end Rebuild

/-! ### Updates -/

section Updates

variable {record record' : EnrRecord PublicKey Field} {key : NodeKey} {pk : Key}

variable (K E) in
/-- The record of a node's key, with its identity scheme. -/
structure OfKey (record : EnrRecord PublicKey Field) (key : NodeKey) (pk : Key) : Prop where
  toEnrKey : toEnrKey K key = .ok pk
  publicKey : record.publicKey = E.toPublicKey pk
  id : (record.tryGet "id").bind E.readString = some "v4"

variable (P) in
/-- The concrete addresses in the order in which they are written. -/
def announced (addrs : List A) : List A := sortedAddrs P (addrs.filter (isConcreteEndpoint P))

variable (P E) in
/-- The scalars of an update. -/
def updateScalars (record : EnrRecord PublicKey Field) (addrs : List A) (baseline : EnrBaseline)
    (learned : Option DiscoveryEndpoint) : Scalars :=
  chosenScalars E record (tcpEndpoints P (addrs.filter (isConcreteEndpoint P))) baseline learned

variable (addrs : List A) (baseline : EnrBaseline) (learned : Option DiscoveryEndpoint)

/-- The `udp` that the new record has is the one that a second update reads. -/
theorem updateScalars_again
    (hudp : record'.udp E = (updateScalars P E record addrs baseline learned).udp) :
    updateScalars P E record' addrs baseline learned =
      updateScalars P E record addrs baseline learned := by
  unfold updateScalars chosenScalars at hudp ⊢
  cases learned with
  | some endpoint => rfl
  | none =>
      generalize tcpEndpoints P (addrs.filter (isConcreteEndpoint P)) = endpoints at hudp ⊢
      cases endpoints with
      | nil =>
          simp only at hudp
          simp only [hudp]
      | cons it rest =>
          simp only at hudp
          simp only [hudp]

theorem seqNum_ne_max {seqNum : UInt64} (h : seqNum.toNat < 2 ^ 64 - 1) :
    seqNum ≠ UInt64.ofNat (2 ^ 64 - 1) := by
  rintro rfl
  rw [UInt64.toNat_ofNat_of_lt' (by decide)] at h
  omega

theorem toNat_seqNum_add_one {seqNum : UInt64} (h : seqNum.toNat < 2 ^ 64 - 1) :
    (seqNum + 1).toNat = seqNum.toNat + 1 := by
  rw [UInt64.toNat_add, UInt64.toNat_one, Nat.mod_eq_of_lt (by omega)]

variable (P E) in
/-- The new record holds the first `n` addresses, and no more would fit. -/
def UpdatedTo (record : EnrRecord PublicKey Field) (pk : Key) (addrs : List A)
    (baseline : EnrBaseline) (learned : Option DiscoveryEndpoint) (n : ℕ)
    (record' : EnrRecord PublicKey Field) : Prop :=
  LongestFit P E record pk (updateScalars P E record addrs baseline learned) (announced P addrs)
      (announced P addrs).length n ∧
    Rebuilt E record pk (updateScalars P E record addrs baseline learned)
      (prefixField P E (announced P addrs) n) record'

variable (P E) in
/-- Whether the record would fit with the first `n` addresses. -/
def FitsWith (record : EnrRecord PublicKey Field) (pk : Key) (addrs : List A)
    (baseline : EnrBaseline) (learned : Option DiscoveryEndpoint) (n : ℕ) : Prop :=
  Fits E record pk (updateScalars P E record addrs baseline learned)
    (prefixField P E (announced P addrs) n)

/-- A rebuilt record is a record of the key. -/
theorem OfKey.rebuilt (hkey : OfKey K E record key pk) {n : ℕ}
    (h : UpdatedTo P E record pk addrs baseline learned n record') : OfKey K E record' key pk where
  toEnrKey := hkey.toEnrKey
  publicKey := h.2.publicKey
  id := h.2.id

variable [DecidableEq PublicKey]

theorem updateEnrAddresses_eq (h : OfKey K E record key pk) :
    updateEnrAddresses P K E record key addrs baseline learned =
      updatePrefixes P E pk (updateScalars P E record addrs baseline learned) (announced P addrs)
        record (countdown (announced P addrs).length) := by
  have htyped : toTyped E record = .ok () := by
    rw [toTyped, h.id]
    rfl
  rw [updateEnrAddresses, h.toEnrKey]
  simp only [htyped]
  rfl

theorem updateEnrAddresses_cases (hkey : OfKey K E record key pk)
    (hseq : record.seqNum.toNat < 2 ^ 64 - 1) :
    (∃ n record', UpdatedTo P E record pk addrs baseline learned n record' ∧
      updateEnrAddresses P K E record key addrs baseline learned = (.ok (), record')) ∨
    (∀ n ≤ (announced P addrs).length, ¬ FitsWith P E record pk addrs baseline learned n) ∧
      ∃ e, updateEnrAddresses P K E record key addrs baseline learned = (.error e, record) := by
  rw [updateEnrAddresses_eq addrs baseline learned hkey]
  rcases updatePrefixes_countdown hkey.publicKey (seqNum_ne_max hseq) (announced P addrs).length
    with ⟨n, record', hlongest, hrebuilt, hrun⟩ | ⟨hnone, hrun⟩
  · exact Or.inl ⟨n, record', ⟨hlongest, hrebuilt⟩, hrun⟩
  · exact Or.inr ⟨hnone, hrun⟩

/-- The second update finds no longer prefix, and the same one if it fits with the next sequence
number. -/
theorem updateEnrAddresses_again (hkey : OfKey K E record key pk)
    (hseq : record.seqNum.toNat < 2 ^ 64 - 1) {n : ℕ}
    (h : UpdatedTo P E record pk addrs baseline learned n record')
    (hseq' : record'.seqNum.toNat < 2 ^ 64 - 1)
    (hfits : E.size (record'.seqNum + 1) record'.pairs ≤ maxEnrSize) :
    ∃ record'', updateEnrAddresses P K E record' key addrs baseline learned = (.ok (), record'') ∧
      UpdatedTo P E record' pk addrs baseline learned n record'' ∧
      record''.pairs.Perm record'.pairs := by
  obtain ⟨⟨hn, hfit, hlonger⟩, hrebuilt⟩ := h
  have hscalars := updateScalars_again addrs baseline learned hrebuilt.udp
  have hagain : ∀ m, (rebuiltContent E record' pk (updateScalars P E record' addrs baseline learned)
      (prefixField P E (announced P addrs) m)).Perm
        (rebuiltContent E record pk (updateScalars P E record addrs baseline learned)
          (prefixField P E (announced P addrs) m)) := by
    intro m
    rw [hscalars]
    exact hrebuilt.again rfl
  have hnum : record.seqNum + 1 ≤ record'.seqNum + 1 := by
    rw [UInt64.le_iff_toNat_le, toNat_seqNum_add_one hseq, toNat_seqNum_add_one hseq',
      hrebuilt.seqNum, toNat_seqNum_add_one hseq]
    omega
  have hfit' : FitsWith P E record' pk addrs baseline learned n := by
    rw [FitsWith, Fits, E.size_perm ((hagain n).trans hrebuilt.pairs.symm)]
    exact hfits
  have hlonger' : ∀ m, n < m → m ≤ (announced P addrs).length →
      ¬ FitsWith P E record' pk addrs baseline learned m := by
    intro m hnm hm hfits
    refine hlonger m hnm hm (hrebuilt.of_again rfl hnum ?_)
    rw [← hscalars]
    exact hfits
  rcases updateEnrAddresses_cases addrs baseline learned
    (hkey.rebuilt addrs baseline learned ⟨⟨hn, hfit, hlonger⟩, hrebuilt⟩) hseq'
    with ⟨m, record'', ⟨⟨hm, hfitm, hlongerm⟩, hrebuilt''⟩, hrun⟩ | ⟨hnone, _⟩
  · have hmn : m = n := by
      rcases Nat.lt_trichotomy m n with hmn | hmn | hmn
      · exact absurd hfit' (hlongerm n hmn hn)
      · exact hmn
      · exact absurd hfitm (hlonger' m hmn hm)
    subst hmn
    exact ⟨record'', hrun, ⟨⟨hm, hfitm, hlongerm⟩, hrebuilt''⟩,
      hrebuilt''.pairs.trans ((hagain m).trans hrebuilt.pairs.symm)⟩
  · exact absurd hfit' (hnone n hn)

theorem updateEnrAddresses_spec (hkey : OfKey K E record key pk)
    (hseq : record.seqNum.toNat < 2 ^ 64 - 1) :
    (∀ record', updateEnrAddresses P K E record key addrs baseline learned = (.ok (), record') →
      record'.seqNum.toNat = record.seqNum.toNat + 1 ∧
      (∀ name, name ∉ ScalarKeys → name ≠ MultiaddrEnrField →
        (pairsOf record'.pairs name).Perm (pairsOf record.pairs name)) ∧
      (∃ n ≤ (announced P addrs).length,
        record'.multiaddrs P E = some ((announced P addrs).take n) ∧
        FitsWith P E record pk addrs baseline learned n ∧
        ∀ m, n < m → m ≤ (announced P addrs).length →
          ¬ FitsWith P E record pk addrs baseline learned m) ∧
      (record'.seqNum.toNat < 2 ^ 64 - 1 →
        E.size (record'.seqNum + 1) record'.pairs ≤ maxEnrSize →
        ∃ record'', updateEnrAddresses P K E record' key addrs baseline learned =
            (.ok (), record'') ∧
          record''.seqNum.toNat = record'.seqNum.toNat + 1 ∧
          record''.publicKey = record'.publicKey ∧ record''.pairs.Perm record'.pairs)) ∧
    ∀ e record', updateEnrAddresses P K E record key addrs baseline learned = (.error e, record') →
      record' = record ∧ ¬ FitsWith P E record pk addrs baseline learned 0 := by
  rcases updateEnrAddresses_cases addrs baseline learned hkey hseq
    with ⟨n, rebuilt, hupdated, hrun⟩ | ⟨hnone, e, hrun⟩
  · refine ⟨?_, fun e record' h => absurd (hrun.symm.trans h) (by simp)⟩
    intro record' h
    obtain rfl : rebuilt = record' := (Prod.mk.inj (hrun.symm.trans h)).2
    obtain ⟨⟨hn, hfits, hlonger⟩, hrebuilt⟩ := hupdated
    refine ⟨?_, ?_, ⟨n, hn, hrebuilt.multiaddrs hfits, hfits, hlonger⟩, ?_⟩
    · rw [hrebuilt.seqNum, toNat_seqNum_add_one hseq]
    · intro name hname hfield
      have hperm := hrebuilt.pairsOf_perm name
      rwa [pairsOf_rebuiltContent hname hfield] at hperm
    · intro hseq' hfits'
      obtain ⟨record'', hrun', hupdated', hpairs⟩ := updateEnrAddresses_again addrs baseline
        learned hkey hseq ⟨⟨hn, hfits, hlonger⟩, hrebuilt⟩ hseq' hfits'
      refine ⟨record'', hrun', ?_, ?_, hpairs⟩
      · rw [hupdated'.2.seqNum, toNat_seqNum_add_one hseq']
      · rw [hupdated'.2.publicKey, hrebuilt.publicKey]
  · refine ⟨fun record' h => absurd (hrun.symm.trans h) (by simp), ?_⟩
    intro e' record' h
    exact ⟨(Prod.mk.inj (hrun.symm.trans h)).2.symm, hnone 0 (Nat.zero_le _)⟩

end Updates

/-! ### Records as they are sent -/

section Rlp

/-- The bytes before a string or a list of `n` bytes. -/
def rlpHeader (n : ℕ) : ℕ := if n < 56 then 1 else 2 + Nat.log 256 n

/-- A string of `n` bytes; one small byte stands for itself. -/
def rlpString (n : ℕ) (small : Bool) : ℕ := if small then 1 else rlpHeader n + n

def rlpNumber (n : ℕ) : ℕ := if n < 128 then 1 else 2 + Nat.log 256 n

inductive RlpField where
  | text (s : String)
  | number (n : ℕ)
  | bytes (b : List Byte)

def rlpText (s : String) : ℕ := rlpString s.utf8ByteSize (s.utf8ByteSize = 1)

def RlpField.size : RlpField → ℕ
  | .text s => rlpText s
  | .number n => rlpNumber n
  | .bytes b => rlpString b.length (b.length = 1 ∧ b.all (fun x => decide (x.val < 128)))

/-- A signature, the sequence number and the pairs. -/
def rlpPayload (seqNum : UInt64) (pairs : List (String × RlpField)) : ℕ :=
  66 + rlpNumber seqNum.toNat + (pairs.map (fun it => rlpText it.1 + it.2.size)).sum

def rlpSize (seqNum : UInt64) (pairs : List (String × RlpField)) : ℕ :=
  rlpHeader (rlpPayload seqNum pairs) + rlpPayload seqNum pairs

theorem rlpHeader_mono {m n : ℕ} (h : m ≤ n) : rlpHeader m ≤ rlpHeader n := by
  have hlog := Nat.log_mono_right (b := 256) h
  unfold rlpHeader
  split_ifs <;> omega

theorem rlpNumber_mono {m n : ℕ} (h : m ≤ n) : rlpNumber m ≤ rlpNumber n := by
  have hlog := Nat.log_mono_right (b := 256) h
  unfold rlpNumber
  split_ifs <;> omega

theorem rlpSize_mono {seqNum seqNum' : UInt64} (pairs : List (String × RlpField))
    (h : seqNum ≤ seqNum') : rlpSize seqNum pairs ≤ rlpSize seqNum' pairs := by
  have hpayload : rlpPayload seqNum pairs ≤ rlpPayload seqNum' pairs :=
    Nat.add_le_add_right (Nat.add_le_add_left
      (rlpNumber_mono (UInt64.le_iff_toNat_le.mp h)) _) _
  exact Nat.add_le_add (rlpHeader_mono hpayload) hpayload

theorem length_le_rlpSize {key : String} {b : List Byte} (seqNum : UInt64)
    {pairs : List (String × RlpField)} (h : (key, .bytes b) ∈ pairs) :
    b.length ≤ rlpSize seqNum pairs := by
  have hfield : b.length ≤ (RlpField.bytes b).size := by
    simp only [RlpField.size, rlpString]
    split_ifs with hsmall
    · exact (of_decide_eq_true hsmall).1.le
    · omega
  have hpair := List.single_le_sum (fun n _ => Nat.zero_le n) _
    (List.mem_map_of_mem (f := fun it : String × RlpField => rlpText it.1 + it.2.size) h)
  simp only [rlpSize, rlpPayload]
  simp only at hpair
  omega

theorem rlpSize_perm {seqNum : UInt64} {pairs pairs' : List (String × RlpField)}
    (h : pairs.Perm pairs') : rlpSize seqNum pairs = rlpSize seqNum pairs' := by
  rw [rlpSize, rlpSize, rlpPayload, rlpPayload, (h.map _).sum_eq]

def rlpFields : EnrFields Unit Unit RlpField where
  toPublicKey := id
  idField := .text "v4"
  keyField := fun _ => .bytes (2 :: List.replicate 32 1)
  ipField := fun
    | .ipv4 address => .bytes address.toList
    | .ipv6 address => .bytes address.toList
  portField := fun port => .number port.toNat
  bytesField := .bytes
  readString := fun
    | .text s => some s
    | _ => none
  readPort := fun
    | .number n => some (UInt16.ofNat n)
    | _ => none
  readBytes := fun
    | .bytes b => some b
    | _ => none

/-- Records of one key, in the order of their field names. -/
def rlpInit (seqNum : UInt64) (pk : Unit) (scalars : Scalars)
    (fields : List (String × RlpField)) : Except String (EnrRecord Unit RlpField) :=
  if rlpSize seqNum (rlpFields.content pk scalars fields) ≤ maxEnrSize then
    .ok ⟨seqNum, pk, (rlpFields.content pk scalars fields).insertionSort (fun a b => a.1 ≤ b.1)⟩
  else .error "Record exceeds maximum size"

def rlpLibrary : EnrLibrary Unit Unit RlpField where
  toEnrFields := rlpFields
  size := rlpSize
  init := rlpInit
  readString_id := rfl
  readPort_port := fun port => congrArg some UInt16.ofNat_toNat
  readBytes_bytes := fun _ => rfl
  size_perm := rlpSize_perm
  size_mono := rlpSize_mono
  length_le_size := length_le_rlpSize
  init_isOk := fun seqNum pk scalars fields => by
    unfold rlpInit
    split_ifs with h <;> simp [h]
  init_ok := fun h => by
    unfold rlpInit at h
    split_ifs at h
    cases h
    exact ⟨rfl, rfl, List.perm_insertionSort _ _⟩

/-! ### Host names -/

/-- The binary form of a `/tcp/..`. -/
def IsTcp (raw : List Byte) : Prop := raw.length = 3 ∧ raw[0]? = some 6

/-- The binary form of a `/dns4/../tcp/..`. -/
def IsDns4Tcp (raw : List Byte) : Prop :=
  raw[0]? = some 54 ∧ (raw.getD 1 0).val < 128 ∧ raw.length = (raw.getD 1 0).val + 5 ∧
    IsTcp (raw.drop (raw.length - 3))

instance (raw : List Byte) : Decidable (IsTcp raw) := inferInstanceAs (Decidable (_ ∧ _))

instance (raw : List Byte) : Decidable (IsDns4Tcp raw) := inferInstanceAs (Decidable (_ ∧ _))

abbrev HostName := { raw : List Byte // IsDns4Tcp raw ∨ IsTcp raw }

def HostName.protocols (ma : HostName) : List String :=
  if IsTcp ma.val then ["tcp"] else ["dns4", "tcp"]

/-- The library with no other addresses. -/
def hostNames : Libp2p HostName where
  buffer := Subtype.val
  init := fun raw => if h : IsDns4Tcp raw ∨ IsTcp raw then some ⟨raw, h⟩ else none
  init_buffer := fun a => dif_pos a.property
  isCircuitRelayMA := fun _ => false
  part := fun ma code =>
    if h : code = "tcp" ∧ IsTcp (ma.val.drop (ma.val.length - 3)) then some ⟨_, Or.inr h.2⟩
    else none
  protoArgument := fun ma =>
    if IsTcp ma.val then some (ma.val.drop 1) else some ((ma.val.drop 2).dropLast.dropLast.dropLast)
  protocols := fun ma => some ma.protocols
  contains := fun ma code => decide (code ∈ ma.protocols)
  getIp := fun _ => none
  initTAddress := fun _ => none
  init_nil := by decide

def oneKey : NodeKeys Unit Unit where
  getRawBytes := fun _ => .ok (List.replicate 32 1)
  fromRaw := fun _ => .ok ()

/-- `/dns4/aa../tcp/80` with a name of `n` letters. -/
def hostNameBytes (n : ℕ) : List Byte :=
  54 :: Fin.ofNat 256 n :: List.replicate n 97 ++ [6, 0, 80]

def twoHosts : List HostName :=
  [⟨hostNameBytes 76, by decide⟩, ⟨hostNameBytes 77, by decide⟩]

/-- The record of a key that has no addresses yet. -/
def bareRecord : EnrRecord Unit RlpField :=
  ⟨126, (), [("id", .text "v4"), ("secp256k1", rlpFields.keyField ())]⟩

/-- The update of the record with two host names. -/
def updateTwoHosts (record : EnrRecord Unit RlpField) :
    Except String Unit × EnrRecord Unit RlpField :=
  updateEnrAddresses hostNames oneKey rlpLibrary record () twoHosts ⟨none, none⟩ none

theorem updateEnrAddresses_bareRecord :
    (updateTwoHosts bareRecord).2.seqNum.toNat = 126 + 1 ∧
      pairsOf (updateTwoHosts bareRecord).2.pairs "rs" = [] := by
  have hkey : OfKey oneKey rlpLibrary bareRecord () () := ⟨rfl, rfl, by decide⟩
  have hrun : updateTwoHosts bareRecord = (.ok (), (updateTwoHosts bareRecord).2) :=
    Prod.ext (by decide +kernel) rfl
  obtain ⟨hnum, hother, _⟩ := (updateEnrAddresses_spec (P := hostNames) twoHosts ⟨none, none⟩ none
    hkey (by decide)).1 _ hrun
  exact ⟨hnum, (hother "rs" (by decide) (by decide)).eq_nil⟩

/-- The second of two equal updates drops an address. -/
theorem update_dropsAddress :
    (updateTwoHosts bareRecord).1 = .ok () ∧
      (updateTwoHosts bareRecord).2.multiaddrs hostNames rlpLibrary = some twoHosts ∧
      (updateTwoHosts (updateTwoHosts bareRecord).2).1 = .ok () ∧
      (updateTwoHosts (updateTwoHosts bareRecord).2).2.multiaddrs hostNames rlpLibrary =
        some (twoHosts.take 1) := by
  decide +kernel

end Rlp


end LogosDelivery.Discovery
