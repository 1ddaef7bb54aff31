import LogosDelivery.Keystore.AppKeystore
import LogosDelivery.Lib.Runs

/-! # Credentials that a keystore keeps

In any sequence of additions, of which each may fail in one file operation, the credential of every
addition that succeeded is found by its query and its password, unless a file operation failed that
loses it: `save` does not move the backup back when it cannot open the file (`kept_after_additions`,
`lost_by_open`), and an addition whose backup cannot be removed fails although its credential is
stored, so that a later one with the same key and another identity succeeds without storing it. -/

namespace LogosDelivery.Keystore

open Lib

/-! ### Credentials as bytes -/

theorem getBiggestInt_int {n : ℕ} (h : n < 2 ^ 63) : getBiggestInt (.int n) = n := if_pos h

theorem toByteSeq_bytesJson (bytes : List (Fin 256)) : toByteSeq (bytesJson bytes) = bytes := by
  have hbyte : ∀ b : Fin 256, Fin.ofNat 256 (getBiggestInt (.int b.val)) = b := by
    intro b
    rw [getBiggestInt_int (by omega)]
    exact Fin.ofNat_val_eq_self b
  rw [toByteSeq, bytesJson, Json.getElems, List.map_map]
  exact (List.map_congr_left fun b _ => hbyte b).trans (List.map_id bytes)

theorem decode_encode {credential : KeystoreMembership} (hindex : credential.treeIndex < 2 ^ 63)
    (hlimit : credential.userMessageLimit < 2 ^ 63) :
    decode (encode credential) = some credential := by
  rw [decode, encode, Json.parseJson_toUgly, Option.bind_some]
  simp [toKeystoreMembership, KeystoreMembership.toJson, Json.field?, List.lookup, Json.getStr,
    getBiggestInt_int hindex, getBiggestInt_int hlimit, toByteSeq_bytesJson]

/-- What a credential is stored under and asked for by. -/
def KeystoreMembership.key (m : KeystoreMembership) : MembershipContract × ℕ :=
  (m.membershipContract, m.treeIndex)

theorem keyText_congr {m m' : KeystoreMembership} (h : m.key = m'.key) : keyText m = keyText m' := by
  have hcontract : m.membershipContract = m'.membershipContract := congrArg Prod.fst h
  have hindex : m.treeIndex = m'.treeIndex := congrArg Prod.snd h
  rw [keyText, keyText, hcontract, hindex]

/-- The text that is hashed can be told apart into its three parts. -/
theorem key_of_keyText {m m' : KeystoreMembership} (hm : m.membershipContract.Valid)
    (hm' : m'.membershipContract.Valid) (h : keyText m = keyText m') : m.key = m'.key := by
  obtain ⟨⟨-, hdigits⟩, hex, haddress, hlength, hhex⟩ := hm
  obtain ⟨-, hex', haddress', hlength', -⟩ := hm'
  have hchain : 'x' ∉ m.membershipContract.chainId ++ ['0'] := by
    intro hx
    rcases List.mem_append.1 hx with hx | hx
    · cases hdigits _ hx
    · exact absurd hx (by decide)
  have hrest : 'x' ∉ hex ++ Nat.toDigits 10 m.treeIndex := by
    intro hx
    rcases List.mem_append.1 hx with hx | hx
    · exact absurd (hhex _ hx) (by decide)
    · cases Json.isDigit_of_mem_toDigits hx
  have hsplit : (m.membershipContract.chainId ++ ['0']) ++ 'x' :: (hex ++ Nat.toDigits 10 m.treeIndex) =
      (m'.membershipContract.chainId ++ ['0']) ++ 'x' :: (hex' ++ Nat.toDigits 10 m'.treeIndex) := by
    simpa [keyText, haddress, haddress'] using h
  obtain ⟨hchain, -, hrest⟩ := (List.append_cons_inj_of_notMem hchain hrest).1 hsplit
  obtain ⟨rfl, hindex⟩ := List.append_inj hrest (hlength.trans hlength'.symm)
  have hvalue := congrArg (Nat.ofDigitChars 10 · 0) hindex
  simp only [Nat.ofDigitChars_ten_toDigits] at hvalue
  have hcontract : m.membershipContract = m'.membershipContract :=
    MembershipContract.ext (List.append_cancel_right hchain) (haddress.trans haddress'.symm)
  exact Prod.ext hcontract hvalue

/-- On valid keys a hash stands for one key. -/
theorem hash_eq_iff (sha256 : Sha256) {m m' : KeystoreMembership} (hm : m.membershipContract.Valid)
    (hm' : m'.membershipContract.Valid) : m.hash sha256 = m'.hash sha256 ↔ m.key = m'.key := by
  constructor
  · exact fun h => key_of_keyText hm hm' (sha256.injective m m' hm hm' h)
  · intro h
    rw [KeystoreMembership.hash, KeystoreMembership.hash, keyText_congr h]

/-! ### The text of a keystore -/

/-- The texts of the application have no space. -/
structure AppInfo.NoSpace (appInfo : AppInfo) : Prop where
  application : ' ' ∉ appInfo.application
  appIdentifier : ' ' ∉ appInfo.appIdentifier
  version : ' ' ∉ appInfo.version

theorem solid_keystoreJson {appInfo : AppInfo} (happ : appInfo.NoSpace)
    {credentials : List (Text × Json)} (h : Json.NoSpaceFields credentials) :
    Json.Solid (keystoreJson appInfo credentials).toUgly := by
  apply Json.toUgly_noSpace
  simp only [keystoreJson, Json.NoSpace, Json.NoSpaceFields, and_true]
  exact ⟨⟨by decide, happ.application⟩, ⟨by decide, happ.appIdentifier⟩, ⟨by decide, h⟩,
    ⟨by decide, happ.version⟩⟩

theorem filter_solid {s : Text} (h : Json.Solid s) :
    (s.filter (· ≠ ' ')).filter (· ≠ '\n') = s := by
  have hspace : s.filter (· ≠ ' ') = s := List.filter_eq_self.2 fun c hc => by simpa using (h c hc).1
  rw [hspace]
  exact List.filter_eq_self.2 fun c hc => by simpa using (h c hc).2

theorem split_solid {s : Text} (h : Json.Solid s) : ∀ piece : Text,
    split newline 0 piece s = [piece.reverse ++ s] := by
  induction s with
  | nil =>
      intro piece
      rw [split, List.append_nil]
  | cons c s ih =>
      intro piece
      have hne : ¬ (newline ≠ [] ∧ newline.isPrefixOf (c :: s) = true) := by
        have hc : '\n' ≠ c := (h c (List.mem_cons_self ..)).2.symm
        simp [newline, hc]
      have hs : Json.Solid s := fun d hd => h d (List.mem_cons_of_mem _ hd)
      rw [split, if_neg (lt_irrefl 0), if_neg hne, ih hs, List.reverse_cons, List.append_assoc]
      rfl

/-- A proper beginning of the text of an empty keystore. -/
def Broken (appInfo : AppInfo) (contents : Text) : Prop :=
  ∃ rest, rest ≠ [] ∧ contents ++ rest = (keystoreJson appInfo []).toUgly

/-- The contents of the file, if the whole text was written, with or without its separator. -/
def Whole (appInfo : AppInfo) (credentials : List (Text × Json)) (contents : Text) : Prop :=
  ∃ sep, (sep = [] ∨ sep = newline) ∧
    contents = (keystoreJson appInfo credentials).toUgly ++ sep

theorem checkKeystore_keystoreJson (appInfo : AppInfo) (credentials : List (Text × Json)) :
    checkKeystore (keystoreJson appInfo credentials) appInfo =
      .ok (keystoreJson appInfo credentials) := by
  simp [checkKeystore, keystoreJson, Json.hasKey, Json.field?, List.lookup, fieldText, Json.getStr]

theorem readKeystore_solid {contents : Text} (h : Json.Solid contents) (appInfo : AppInfo) :
    readKeystore contents appInfo newline = loadPieces appInfo [contents] := by
  rw [readKeystore, filter_solid h, split_solid h]
  rfl

theorem read_whole {appInfo : AppInfo} (happ : appInfo.NoSpace) {credentials : List (Text × Json)}
    (hcredentials : Json.NoSpaceFields credentials) {contents : Text}
    (h : Whole appInfo credentials contents) :
    readKeystore contents appInfo newline = .ok (keystoreJson appInfo credentials) := by
  obtain ⟨sep, hsep, rfl⟩ := h
  have hsolid := solid_keystoreJson happ hcredentials
  have hread : readKeystore ((keystoreJson appInfo credentials).toUgly ++ sep) appInfo newline =
      readKeystore (keystoreJson appInfo credentials).toUgly appInfo newline := by
    rcases hsep with rfl | rfl
    · rw [List.append_nil]
    · unfold readKeystore
      simp only [List.filter_append]
      rw [show (newline.filter (· ≠ ' ')).filter (· ≠ '\n') = [] by decide, List.append_nil]
  obtain ⟨s, hopen⟩ := Json.toUgly_obj [
    ("application".toList, .str appInfo.application),
    ("appIdentifier".toList, .str appInfo.appIdentifier),
    ("credentials".toList, .obj credentials),
    ("version".toList, .str appInfo.version)]
  have hshape : ¬ ((keystoreJson appInfo credentials).toUgly.head? ≠ some '{' ∨
      (keystoreJson appInfo credentials).toUgly.getLast? ≠ some '}') := by
    rw [not_or, not_not, not_not]
    exact ⟨by rw [keystoreJson, hopen]; rfl, Json.toUgly_obj_getLast _⟩
  rw [hread, readKeystore_solid hsolid, loadPieces, if_neg hshape, Json.parseJson_toUgly]
  exact checkKeystore_keystoreJson appInfo credentials

theorem read_broken {appInfo : AppInfo} (happ : appInfo.NoSpace) {contents : Text}
    (h : Broken appInfo contents) : ∃ e, readKeystore contents appInfo newline = .error e := by
  obtain ⟨rest, hrest, hwhole⟩ := h
  have hempty : Json.NoSpaceFields [] := trivial
  have hsolid : Json.Solid contents := by
    intro c hc
    refine solid_keystoreJson happ hempty c ?_
    rw [← hwhole]
    exact List.mem_append_left rest hc
  rw [readKeystore_solid hsolid, loadPieces]
  split_ifs
  · exact ⟨_, rfl⟩
  · rw [Json.parseJson_prefix hwhole hrest]
    exact ⟨_, rfl⟩

/-! ### What a call does to the file -/

theorem fails_unique {fault : Option Fault} {op op' : FileOp} (h : fails fault op = true)
    (hne : op ≠ op') : fails fault op' = false := by
  cases fault with
  | none => rfl
  | some fault =>
      have heq : fault.op = op := by simpa [fails] using h
      simp [fails, heq, hne]

theorem write_prefix (fault : Option Fault) (op : FileOp) (text : Text) :
    (write fault op text).1 <+: text ∧
      ((write fault op text).2 = true → (write fault op text).1 = text) ∧
      ((write fault op text).2 = false → fails fault op = true) := by
  have hthrough : write fault op text = (text, true) → (write fault op text).1 <+: text ∧
      ((write fault op text).2 = true → (write fault op text).1 = text) ∧
      ((write fault op text).2 = false → fails fault op = true) := by
    intro h
    rw [h]
    exact ⟨List.prefix_refl text, fun _ => rfl, fun h => absurd h.symm Bool.false_ne_true⟩
  cases fault with
  | none => exact hthrough rfl
  | some fault =>
      by_cases hop : fault.op = op
      · have hcut : write (some fault) op text = (text.take fault.written, false) := if_pos hop
        rw [hcut]
        exact ⟨List.take_prefix _ _, fun h => absurd h Bool.false_ne_true,
          fun _ => by simp [fails, hop]⟩
      · exact hthrough (if_neg hop)

/-- What was written is the beginning of the text with its separator, or all of it. -/
theorem writeText_prefix (fault : Option Fault) (permissions text separator : FileOp)
    (json sep : Text) :
    (writeText fault permissions text separator json sep).1 <+: json ++ sep ∧
      ((writeText fault permissions text separator json sep).2 = true →
        (writeText fault permissions text separator json sep).1 = json ++ sep) ∧
      ((writeText fault permissions text separator json sep).2 = false →
        fails fault permissions = true ∨ fails fault text = true ∨
          fails fault separator = true) := by
  obtain ⟨htext, hall, hfail⟩ := write_prefix fault text json
  obtain ⟨hsep, hsepAll, hsepFail⟩ := write_prefix fault separator sep
  unfold writeText
  split
  next hpermissions =>
    exact ⟨List.nil_prefix, fun h => absurd h Bool.false_ne_true, fun _ => Or.inl hpermissions⟩
  dsimp only
  cases hwritten : (write fault text json).2 with
  | false =>
      rw [Bool.not_false, if_pos rfl, hwritten]
      exact ⟨htext.trans (List.prefix_append _ _), fun h => absurd h Bool.false_ne_true,
        fun _ => Or.inr (Or.inl (hfail hwritten))⟩
  | true =>
      rw [Bool.not_true, if_neg Bool.false_ne_true, hall hwritten]
      exact ⟨(List.prefix_append_right_inj json).2 hsep, fun h => by rw [hsepAll h],
        fun h => Or.inr (Or.inr (hsepFail h))⟩

theorem prefix_concat_cases {s t : Text} {c : Char} (h : s <+: t ++ [c]) :
    (∃ rest, rest ≠ [] ∧ s ++ rest = t) ∨ s = t ∨ s = t ++ [c] := by
  rcases List.prefix_concat_iff.1 h with heq | ⟨rest, hrest⟩
  · exact Or.inr (Or.inr heq)
  · by_cases hnil : rest = []
    · rw [hnil, List.append_nil] at hrest
      exact Or.inr (Or.inl hrest)
    · exact Or.inl ⟨rest, hnil, hrest⟩

/-- The file has these credentials; one that is missing, or that a failed creation left, has none. -/
def HasCredentials (appInfo : AppInfo) (credentials : List (Text × Json)) : Option Text → Prop
  | none => credentials = []
  | some contents => (Broken appInfo contents ∧ credentials = []) ∨ Whole appInfo credentials contents

theorem createAppKeystore_spec (fault : Option Fault) (files : Files) (appInfo : AppInfo) :
    (∃ e, (createAppKeystore fault files appInfo newline).2 = .error e) ∧
        ((createAppKeystore fault files appInfo newline).1 = files ∨
          HasCredentials appInfo [] (createAppKeystore fault files appInfo newline).1.keystore) ∨
      (createAppKeystore fault files appInfo newline).2 = .ok () ∧
        ∃ contents, (createAppKeystore fault files appInfo newline).1.keystore = some contents ∧
          Whole appInfo [] contents := by
  obtain ⟨hwrites, hall, -⟩ := writeText_prefix fault .createPermissions .createWrite
    .createSeparator (keystoreJson appInfo []).toUgly newline
  unfold createAppKeystore
  split
  · exact Or.inl ⟨⟨_, rfl⟩, Or.inl rfl⟩
  dsimp only
  cases hwritten : (writeText fault .createPermissions .createWrite .createSeparator
      (keystoreJson appInfo []).toUgly newline).2 with
  | true => exact Or.inr ⟨rfl, _, rfl, newline, Or.inr rfl, hall hwritten⟩
  | false =>
      refine Or.inl ⟨⟨_, rfl⟩, Or.inr ?_⟩
      rcases prefix_concat_cases hwrites with ⟨rest, hrest, heq⟩ | heq | heq
      · exact Or.inl ⟨⟨rest, hrest, heq⟩, rfl⟩
      · exact Or.inr ⟨[], Or.inl rfl, heq.trans (List.append_nil _).symm⟩
      · exact Or.inr ⟨newline, Or.inr rfl, heq⟩

theorem loadAppKeystore_spec {appInfo : AppInfo} (happ : appInfo.NoSpace)
    {credentials : List (Text × Json)} (hcredentials : Json.NoSpaceFields credentials)
    {files : Files} (h : HasCredentials appInfo credentials files.keystore) (fault : Option Fault) :
    (∃ e, (loadAppKeystore fault files appInfo newline).2 = .error e) ∧
        HasCredentials appInfo credentials (loadAppKeystore fault files appInfo newline).1.keystore ∨
      (loadAppKeystore fault files appInfo newline).2 = .ok (keystoreJson appInfo credentials) ∧
        fails fault .openToLoad = false ∧
        ∃ contents, (loadAppKeystore fault files appInfo newline).1.keystore = some contents ∧
          Whole appInfo credentials contents := by
  unfold loadAppKeystore
  cases hkeystore : files.keystore with
  | none =>
      rw [hkeystore] at h
      obtain rfl : credentials = [] := h
      rw [Option.isNone_none, if_pos rfl]
      rcases createAppKeystore_spec fault files appInfo with
        ⟨⟨e, he⟩, hcreated⟩ | ⟨hok, contents, hcontents, hwhole⟩
      · simp only [he]
        refine Or.inl ⟨⟨e, rfl⟩, ?_⟩
        rcases hcreated with hsame | hcreated
        · rw [hsame, hkeystore]
          rfl
        · exact hcreated
      · simp only [hok]
        split
        · refine Or.inl ⟨⟨_, rfl⟩, ?_⟩
          rw [hcontents]
          exact Or.inr hwhole
        next hopen =>
          refine Or.inr ⟨?_, by simpa using hopen, contents, hcontents, hwhole⟩
          rw [hcontents]
          exact read_whole happ hcredentials hwhole
  | some contents =>
      rw [hkeystore] at h
      rw [Option.isNone_some, if_neg Bool.false_ne_true]
      dsimp only
      split
      · refine Or.inl ⟨⟨_, rfl⟩, ?_⟩
        rw [hkeystore]
        exact h
      next hopen =>
        rw [hkeystore]
        rcases h with ⟨hbroken, rfl⟩ | hwhole
        · exact Or.inl ⟨read_broken happ hbroken, Or.inl ⟨hbroken, rfl⟩⟩
        · exact Or.inr ⟨read_whole happ hcredentials hwhole, by simpa using hopen, contents, rfl, hwhole⟩

theorem load_whole {appInfo : AppInfo} (happ : appInfo.NoSpace) {credentials : List (Text × Json)}
    (hcredentials : Json.NoSpaceFields credentials) {files : Files} {contents : Text}
    (hcontents : files.keystore = some contents) (hwhole : Whole appInfo credentials contents)
    {fault : Option Fault} (hopen : fails fault .openToLoad = false) :
    loadAppKeystore fault files appInfo newline =
      (files, .ok (keystoreJson appInfo credentials)) := by
  simp only [loadAppKeystore, hcontents, Option.isNone_some, Bool.false_eq_true, if_false, hopen,
    Option.getD_some]
  rw [read_whole happ hcredentials hwhole]

theorem createAppKeystore_noFault (files : Files) (appInfo : AppInfo) :
    createAppKeystore none files appInfo newline =
      ({ files with keystore := some ((keystoreJson appInfo []).toUgly ++ newline) }, .ok ()) := rfl

/-- A load that finds no file makes an empty keystore. -/
theorem load_missing {appInfo : AppInfo} (happ : appInfo.NoSpace) {files : Files}
    (hmissing : files.keystore = none) :
    loadAppKeystore none files appInfo newline =
      ({ files with keystore := some ((keystoreJson appInfo []).toUgly ++ newline) },
        .ok (keystoreJson appInfo [])) := by
  have hempty : Json.NoSpaceFields [] := trivial
  rw [loadAppKeystore, hmissing, Option.isNone_none, if_pos rfl, createAppKeystore_noFault]
  exact congrArg (Prod.mk _) (read_whole happ hempty ⟨newline, Or.inr rfl, rfl⟩)

/-- A file that is there is kept, or written anew, or it is left behind as the backup. -/
theorem save_spec (fault : Option Fault) {files : Files} {contents : Text}
    (hkeystore : files.keystore = some contents) (json : Json) :
    (∃ e, (save fault files json newline).2 = .error e) ∧
        (save fault files json newline).1.keystore = some contents ∨
      ((∃ e, (save fault files json newline).2 = .error e) ∧ fails fault .openToSave = true ∧
        (save fault files json newline).1.keystore = none) ∨
      (save fault files json newline).1.keystore = some (json.toUgly ++ newline) := by
  obtain ⟨-, hall, hfail⟩ := writeText_prefix fault .savePermissions .saveWrite .saveSeparator
    json.toUgly newline
  unfold save
  rw [hkeystore, Option.isSome_some, Bool.true_and, if_pos rfl]
  split
  · exact Or.inl ⟨⟨_, rfl⟩, hkeystore⟩
  split
  next hopen => exact Or.inr (Or.inl ⟨⟨_, rfl⟩, hopen, rfl⟩)
  dsimp only [Option.getD_none, List.nil_append, Option.isNone_some, Option.isSome_some]
  cases hwritten : (writeText fault .savePermissions .saveWrite .saveSeparator json.toUgly newline).2
    with
  | false =>
      have hremove : fails fault .removeUnsaved = false ∧ fails fault .restoreBackup = false := by
        rcases hfail hwritten with h | h | h
        · exact ⟨fails_unique h (by decide), fails_unique h (by decide)⟩
        · exact ⟨fails_unique h (by decide), fails_unique h (by decide)⟩
        · exact ⟨fails_unique h (by decide), fails_unique h (by decide)⟩
      rw [hremove.1, hremove.2]
      exact Or.inl ⟨⟨_, rfl⟩, rfl⟩
  | true =>
      refine Or.inr (Or.inr ?_)
      rw [hall hwritten, Bool.not_true, if_neg Bool.false_ne_true]
      split
      · rfl
      · rfl

/-- When the file cannot be opened, only its backup is left. -/
theorem save_of_openToSave {fault : Option Fault} (hfault : fails fault .openToSave = true)
    {files : Files} {contents : Text} (hkeystore : files.keystore = some contents) (json : Json) :
    save fault files json newline =
      (⟨none, some contents⟩, .error ⟨.keystoreOsError, "error in waku_keystore save: "⟩) := by
  have hmove : fails fault .moveToBackup = false := fails_unique hfault (by decide)
  unfold save
  rw [hkeystore, hmove, hfault]
  rfl

section

variable {ρ : Type} {sha256 : Sha256} {keyfiles : KeyfileLibrary ρ} {appInfo : AppInfo}

theorem lookup_credentials (appInfo : AppInfo) (credentials : List (Text × Json)) :
    (keystoreJson appInfo credentials).field? "credentials".toList = some (.obj credentials) := by
  simp [keystoreJson, Json.field?, List.lookup]

theorem setField_credentials (appInfo : AppInfo) (credentials : List (Text × Json))
    {key : Text} (hkey : key ∉ credentials.map Prod.fst) (keyfile : Json) :
    (keystoreJson appInfo credentials).setField "credentials".toList
        ((Json.obj credentials).setField key keyfile) =
      keystoreJson appInfo (credentials ++ [(key, keyfile)]) := by
  have hlookup := Json.lookup_eq_none_iff.2 hkey
  simp [keystoreJson, Json.setField, Json.setIn, Json.setIn_of_lookup_none hlookup]

theorem hasKey_iff {credentials : List (Text × Json)} {key : Text} :
    (Json.obj credentials).hasKey key = true ↔ key ∈ credentials.map Prod.fst := by
  change (credentials.lookup key).isSome = true ↔ _
  rw [Option.isSome_iff_ne_none, Ne, Json.lookup_eq_none_iff, not_not]

/-- What an addition does: nothing to the credentials, with an error or because there is one of its
key; or it loses the file; or it stores its keyfile. -/
theorem addMembershipCredentials_spec (happ : appInfo.NoSpace)
    {credentials : List (Text × Json)} (hcredentials : Json.NoSpaceFields credentials)
    {files : Files} (h : HasCredentials appInfo credentials files.keystore) (fault : Option Fault)
    (membership : KeystoreMembership) (password : Text) (draw : ρ)
    {added : Files × Except AppKeystoreError Unit}
    (hadded : addMembershipCredentials sha256 keyfiles fault files membership password draw appInfo
      newline = added) :
    ((∃ e, added.2 = .error e) ∧ HasCredentials appInfo credentials added.1.keystore) ∨
      (added.2 = .ok () ∧ HasCredentials appInfo credentials added.1.keystore ∧
        fails fault .openToLoad = false ∧
        membership.hash sha256 ∈ credentials.map Prod.fst) ∨
      (membership.hash sha256 ∉ credentials.map Prod.fst ∧ ∃ keyfile,
        keyfiles.createKeyFileJson (encode membership) password draw = .ok keyfile ∧
        ((∃ e, added.2 = .error e) ∧ fails fault .openToSave = true ∧ added.1.keystore = none ∨
          ∃ contents, added.1.keystore = some contents ∧
            Whole appInfo (credentials ++ [(membership.hash sha256, keyfile)]) contents)) := by
  subst hadded
  unfold addMembershipCredentials
  rcases loadAppKeystore_spec happ hcredentials h fault with
    ⟨⟨e, he⟩, hloaded⟩ | ⟨hload, hopen, contents, hcontents, hwhole⟩
  · simp only [he]
    exact Or.inl ⟨⟨e, rfl⟩, hloaded⟩
  have hloaded : HasCredentials appInfo credentials
      (loadAppKeystore fault files appInfo newline).1.keystore := by
    rw [hcontents]
    exact Or.inr hwhole
  simp only [hload, lookup_credentials]
  split
  next hkey => exact Or.inr (Or.inl ⟨rfl, hloaded, hopen, hasKey_iff.1 hkey⟩)
  next hkey =>
    rw [hasKey_iff] at hkey
    cases hcreate : keyfiles.createKeyFileJson (encode membership) password draw with
    | error e => exact Or.inl ⟨⟨_, rfl⟩, hloaded⟩
    | ok keyfile =>
        dsimp only
        rw [setField_credentials appInfo credentials hkey]
        rcases save_spec fault hcontents
          (keystoreJson appInfo (credentials ++ [(membership.hash sha256, keyfile)])) with
          ⟨herror, hkept⟩ | ⟨herror, hfail, hlost⟩ | hsaved
        · refine Or.inl ⟨herror, ?_⟩
          rw [hkept]
          exact Or.inr hwhole
        · exact Or.inr (Or.inr ⟨hkey, keyfile, rfl, Or.inl ⟨herror, hfail, hlost⟩⟩)
        · exact Or.inr (Or.inr ⟨hkey, keyfile, rfl, Or.inr ⟨_, hsaved, newline, Or.inr rfl, rfl⟩⟩)

end

/-! ### Runs -/

/-- An addition, with its draws and the operation that fails in it. -/
structure Call (ρ : Type) where
  membership : KeystoreMembership
  password : Text
  draw : ρ
  fault : Option Fault
  valid : membership.membershipContract.Valid
  treeIndex_lt : membership.treeIndex < 2 ^ 63
  userMessageLimit_lt : membership.userMessageLimit < 2 ^ 63

def Call.key {ρ : Type} (call : Call ρ) : MembershipContract × ℕ := call.membership.key

def Call.hash {ρ : Type} (sha256 : Sha256) (call : Call ρ) : Text := call.membership.hash sha256

/-- The hashes under which the file has credentials. -/
def credentialKeys (appInfo : AppInfo) (files : Files) : List Text :=
  match files.keystore.map fun contents => readKeystore contents appInfo newline with
  | some (.ok data) =>
      (((data.field? "credentials".toList).map Json.getFields).getD []).map Prod.fst
  | _ => []

/-- The files, the calls so far with their results, and those whose credentials the file has. -/
structure Session (ρ : Type) where
  files : Files
  done : List (Call ρ × Except AppKeystoreError Unit)
  stored : List (Call ρ)

namespace Session

variable {ρ : Type}

def new : Session ρ := ⟨⟨none, none⟩, [], []⟩

local instance decidableKey (key : Text) (keys : List Text) : Decidable (key ∈ keys) :=
  decidable_of_iff (∃ k ∈ keys, key = k) exists_eq_right'

section

variable (sha256 : Sha256) (keyfiles : KeyfileLibrary ρ) (appInfo : AppInfo)

def step (s : Session ρ) (call : Call ρ) : Session ρ :=
  let added := addMembershipCredentials sha256 keyfiles call.fault s.files call.membership
    call.password call.draw appInfo newline
  { files := added.1
    done := s.done ++ [(call, added.2)]
    stored :=
      if call.hash sha256 ∈ credentialKeys appInfo s.files then s.stored
      else (s.stored ++ [call]).filter fun c =>
        decide (c.hash sha256 ∈ credentialKeys appInfo added.1) }

def after (calls : List (Call ρ)) : Session ρ := run (step sha256 keyfiles appInfo) new calls

/-- The first call of a key that succeeded. -/
def firstOk (s : Session ρ) (key : MembershipContract × ℕ) : Option (Call ρ) :=
  (s.done.find? fun d => decide (d.1.key = key) && d.2.isOk).map Prod.fst

structure Kept (s : Session ρ) : Prop where
  found : ∀ call query, s.firstOk call.key = some call → query.key = call.key →
    getMembershipCredentials sha256 keyfiles s.files call.password query appInfo =
      some (.ok call.membership)
  refused : ∀ query password, query.membershipContract.Valid →
    2 ≤ (credentialKeys appInfo s.files).length →
    (∀ d ∈ s.done, d.1.key = query.key →
      d.1.hash sha256 ∉ credentialKeys appInfo s.files) →
    getMembershipCredentials sha256 keyfiles s.files password query appInfo =
      some (.error ⟨.keystoreCredentialNotFoundError, severalCredentials⟩)

/-- The condition on a call: the file is opened again after it became the backup, unless no call has
succeeded yet; and a credential that is there from a call that failed is the one to be added. -/
structure Meets (s : Session ρ) (call : Call ρ) : Prop where
  opened : fails call.fault .openToSave = true →
    call.hash sha256 ∉ credentialKeys appInfo s.files →
    (keyfiles.createKeyFileJson (encode call.membership) call.password call.draw).isOk = true →
    ∀ d ∈ s.done, d.2.isOk = false
  same : fails call.fault .openToLoad = false → ∀ c ∈ s.stored, c.key = call.key →
    (∃ d ∈ s.done, d.1.key = call.key ∧ d.2.isOk = true) ∨
      c.membership = call.membership ∧ c.password = call.password

/-- The keyfile of a call. -/
def Opens (call : Call ρ) (credential : Text × Json) : Prop :=
  credential.1 = call.hash sha256 ∧
    keyfiles.decodeKeyFileJson credential.2 call.password = .ok (encode call.membership)

structure Sound (s : Session ρ) : Prop where
  file : ∃ credentials, HasCredentials appInfo credentials s.files.keystore ∧
    Json.NoSpaceFields credentials ∧ List.Forall₂ (Opens sha256 keyfiles) s.stored credentials
  distinct : (s.stored.map (Call.hash sha256)).Nodup
  stored : ∀ c ∈ s.stored, ∃ d ∈ s.done, d.1 = c
  added : ∀ d ∈ s.done, d.2.isOk = true → ∃ c ∈ s.stored, c.key = d.1.key
  first : ∀ c ∈ s.stored, ∀ call, s.firstOk c.key = some call →
    call.membership = c.membership ∧ call.password = c.password

end

variable {sha256 : Sha256} {keyfiles : KeyfileLibrary ρ} {appInfo : AppInfo} {s : Session ρ}
  {call : Call ρ}

theorem Sound.new : Sound sha256 keyfiles appInfo (new : Session ρ) where
  file := ⟨[], rfl, trivial, .nil⟩
  distinct := List.nodup_nil
  stored _ h := absurd h List.not_mem_nil
  added _ h := absurd h List.not_mem_nil
  first _ h := absurd h List.not_mem_nil

theorem keys_of_opens {calls : List (Call ρ)} {credentials : List (Text × Json)}
    (h : List.Forall₂ (Opens sha256 keyfiles) calls credentials) :
    credentials.map Prod.fst = calls.map (Call.hash sha256) := by
  induction h with
  | nil => rfl
  | cons hopens _ ih => rw [List.map_cons, List.map_cons, hopens.1, ih]

theorem credentialKeys_eq (happ : appInfo.NoSpace) {credentials : List (Text × Json)}
    (hcredentials : Json.NoSpaceFields credentials) {files : Files}
    (h : HasCredentials appInfo credentials files.keystore) :
    credentialKeys appInfo files = credentials.map Prod.fst := by
  unfold credentialKeys
  cases hkeystore : files.keystore with
  | none =>
      rw [hkeystore] at h
      obtain rfl : credentials = [] := h
      rfl
  | some contents =>
      rw [hkeystore] at h
      rw [Option.map_some]
      rcases h with ⟨hbroken, rfl⟩ | hwhole
      · obtain ⟨e, he⟩ := read_broken happ hbroken
        rw [he]
        rfl
      · rw [read_whole happ hcredentials hwhole]
        dsimp only
        rw [lookup_credentials]
        rfl

theorem firstOk_ne_none {d : Call ρ × Except AppKeystoreError Unit} (hd : d ∈ s.done)
    {key : MembershipContract × ℕ} (hkey : d.1.key = key) (hok : d.2.isOk = true) :
    s.firstOk key ≠ none := by
  intro hnone
  rw [firstOk, Option.map_eq_none_iff, List.find?_eq_none] at hnone
  exact hnone d hd (by simp [hkey, hok])

theorem firstOk_append (s : Session ρ) (key : MembershipContract × ℕ) (call : Call ρ)
    (result : Except AppKeystoreError Unit) (files : Files) (stored : List (Call ρ)) :
    firstOk ⟨files, s.done ++ [(call, result)], stored⟩ key =
      (s.firstOk key).or (if call.key = key ∧ result.isOk = true then some call else none) := by
  unfold firstOk
  rw [List.find?_append, Option.map_or]
  congr 1
  by_cases hkey : call.key = key ∧ result.isOk = true
  · simp [hkey]
  · simp [hkey]

theorem Sound.keys (happ : appInfo.NoSpace) (h : Sound sha256 keyfiles appInfo s) :
    credentialKeys appInfo s.files = s.stored.map (Call.hash sha256) := by
  obtain ⟨credentials, hfile, hnoSpace, hopens⟩ := h.file
  rw [credentialKeys_eq happ hnoSpace hfile, keys_of_opens hopens]

theorem Call.hash_eq_iff (sha256 : Sha256) (c call : Call ρ) :
    c.hash sha256 = call.hash sha256 ↔ c.key = call.key :=
  Keystore.hash_eq_iff sha256 c.valid call.valid

theorem Sound.hash_mem_iff (happ : appInfo.NoSpace) (h : Sound sha256 keyfiles appInfo s) :
    call.hash sha256 ∈ credentialKeys appInfo s.files ↔ ∃ c ∈ s.stored, c.key = call.key := by
  rw [h.keys happ, List.mem_map]
  simp only [Call.hash_eq_iff]

/-- The credentials stay as they are. -/
theorem Sound.unchanged (h : Sound sha256 keyfiles appInfo s) {files : Files}
    {result : Except AppKeystoreError Unit} {credentials : List (Text × Json)}
    (hfile : HasCredentials appInfo credentials files.keystore)
    (hnoSpace : Json.NoSpaceFields credentials)
    (hopens : List.Forall₂ (Opens sha256 keyfiles) s.stored credentials)
    (hok : result.isOk = true → (∃ c ∈ s.stored, c.key = call.key) ∧
      ∀ c ∈ s.stored, c.key = call.key → (∃ d ∈ s.done, d.1.key = call.key ∧ d.2.isOk = true) ∨
        c.membership = call.membership ∧ c.password = call.password) :
    Sound sha256 keyfiles appInfo ⟨files, s.done ++ [(call, result)], s.stored⟩ := by
  refine ⟨⟨credentials, hfile, hnoSpace, hopens⟩, h.distinct, ?_, ?_, ?_⟩
  · intro c hc
    obtain ⟨d, hd, rfl⟩ := h.stored c hc
    exact ⟨d, List.mem_append_left _ hd, rfl⟩
  · intro d hd hdok
    rcases List.mem_append.1 hd with hd | hd
    · exact h.added d hd hdok
    · obtain rfl := List.mem_singleton.1 hd
      exact (hok hdok).1
  · intro c hc call' hfirst
    rw [firstOk_append] at hfirst
    rcases hbefore : s.firstOk c.key with _ | before
    · rw [hbefore, Option.none_or] at hfirst
      split_ifs at hfirst with hlast
      obtain rfl := Option.some.inj hfirst
      rcases (hok hlast.2).2 c hc hlast.1.symm with ⟨d, hd, hkey, hdok⟩ | hsame
      · exact absurd hbefore (firstOk_ne_none hd (hkey.trans hlast.1) hdok)
      · exact ⟨hsame.1.symm, hsame.2.symm⟩
    · rw [hbefore, Option.some_or] at hfirst
      obtain rfl := Option.some.inj hfirst
      exact h.first c hc before hbefore

/-- A credential is added for a key that had none. -/
theorem Sound.newStored (h : Sound sha256 keyfiles appInfo s)
    (hnew : ∀ c ∈ s.stored, c.key ≠ call.key) {files : Files}
    {result : Except AppKeystoreError Unit} {credentials : List (Text × Json)}
    (hfile : HasCredentials appInfo credentials files.keystore)
    (hnoSpace : Json.NoSpaceFields credentials)
    (hopens : List.Forall₂ (Opens sha256 keyfiles) (s.stored ++ [call]) credentials) :
    Sound sha256 keyfiles appInfo ⟨files, s.done ++ [(call, result)], s.stored ++ [call]⟩ := by
  have hnone : s.firstOk call.key = none := by
    by_contra hne
    obtain ⟨first, hfirst⟩ := Option.ne_none_iff_exists'.1 hne
    obtain ⟨d, hd, -⟩ := Option.map_eq_some_iff.1 hfirst
    have hok := List.find?_some hd
    obtain ⟨hkey, hdok⟩ : d.1.key = call.key ∧ d.2.isOk = true := by simpa using hok
    obtain ⟨c, hc, hckey⟩ := h.added d (List.mem_of_find?_eq_some hd) hdok
    exact hnew c hc (hckey.trans hkey)
  refine ⟨⟨credentials, hfile, hnoSpace, hopens⟩, ?_, ?_, ?_, ?_⟩
  · rw [List.map_append]
    refine nodup_append_singleton h.distinct ?_
    intro hhash
    obtain ⟨c, hc, heq⟩ := List.mem_map.1 hhash
    exact hnew c hc ((Call.hash_eq_iff sha256 c call).1 heq)
  · intro c hc
    rcases List.mem_append.1 hc with hc | hc
    · obtain ⟨d, hd, rfl⟩ := h.stored c hc
      exact ⟨d, List.mem_append_left _ hd, rfl⟩
    · obtain rfl := List.mem_singleton.1 hc
      exact ⟨_, List.mem_append_right _ (List.mem_singleton_self _), rfl⟩
  · intro d hd hdok
    rcases List.mem_append.1 hd with hd | hd
    · obtain ⟨c, hc, hkey⟩ := h.added d hd hdok
      exact ⟨c, List.mem_append_left _ hc, hkey⟩
    · obtain rfl := List.mem_singleton.1 hd
      exact ⟨call, List.mem_append_right _ (List.mem_singleton_self _), rfl⟩
  · intro c hc call' hfirst
    rw [firstOk_append] at hfirst
    rcases List.mem_append.1 hc with hc | hc
    · rw [if_neg fun hkey => hnew c hc hkey.1.symm, Option.or_none] at hfirst
      exact h.first c hc call' hfirst
    · obtain rfl := List.mem_singleton.1 hc
      rw [hnone, Option.none_or] at hfirst
      split_ifs at hfirst
      obtain rfl := Option.some.inj hfirst
      exact ⟨rfl, rfl⟩

theorem Sound.step (happ : appInfo.NoSpace) (h : Sound sha256 keyfiles appInfo s)
    (hmeets : Meets sha256 keyfiles appInfo s call) :
    Sound sha256 keyfiles appInfo (s.step sha256 keyfiles appInfo call) := by
  obtain ⟨credentials, hfile, hnoSpace, hopens⟩ := h.file
  have hkeys := h.keys happ
  have hnames := keys_of_opens hopens
  unfold Session.step
  generalize hadded : addMembershipCredentials sha256 keyfiles call.fault s.files call.membership
    call.password call.draw appInfo newline = added
  rcases addMembershipCredentials_spec happ hnoSpace hfile call.fault call.membership call.password
    call.draw hadded with ⟨⟨e, he⟩, hfile'⟩ | ⟨hok, hfile', hload, hmem⟩ | ⟨hnew, keyfile, hcreate, hsaved⟩
  · have hkeys' : credentialKeys appInfo added.1 = s.stored.map (Call.hash sha256) := by
      rw [credentialKeys_eq happ hnoSpace hfile', hnames]
    have hstored : (if call.hash sha256 ∈ credentialKeys appInfo s.files then s.stored
        else (s.stored ++ [call]).filter fun c =>
          decide (c.hash sha256 ∈ credentialKeys appInfo added.1)) = s.stored := by
      split
      · rfl
      next hnew =>
        rw [hkeys] at hnew
        rw [hkeys', List.filter_append, List.filter_eq_self.2, List.filter_singleton]
        · simp [hnew]
        · exact fun c hc => decide_eq_true (List.mem_map_of_mem hc)
    dsimp only
    rw [hstored]
    exact h.unchanged hfile' hnoSpace hopens fun hok => by rw [he] at hok; cases hok
  · have hmem' : call.hash sha256 ∈ credentialKeys appInfo s.files := by
      rw [hkeys, ← hnames]
      exact hmem
    dsimp only
    rw [if_pos hmem']
    exact h.unchanged hfile' hnoSpace hopens fun _ =>
      ⟨(h.hash_mem_iff happ).1 hmem', hmeets.same hload⟩
  · have hnew' : call.hash sha256 ∉ credentialKeys appInfo s.files := by
      rw [hkeys, ← hnames]
      exact hnew
    dsimp only
    rw [if_neg hnew']
    rcases hsaved with ⟨⟨e, he⟩, hfail, hlost⟩ | ⟨contents, hcontents, hwhole⟩
    · have hnone : credentialKeys appInfo added.1 = [] := by
        rw [credentialKeys, hlost]
        rfl
      have hnotOk := hmeets.opened hfail hnew' (by rw [hcreate]; rfl)
      rw [hnone, List.filter_eq_nil_iff.2 fun c _ => by simp]
      refine ⟨⟨[], ?_, trivial, .nil⟩, List.nodup_nil, ?_, ?_, ?_⟩
      · rw [hlost]
        rfl
      · exact fun c hc => absurd hc List.not_mem_nil
      · intro d hd hdok
        rcases List.mem_append.1 hd with hd | hd
        · rw [hnotOk d hd] at hdok
          cases hdok
        · obtain rfl := List.mem_singleton.1 hd
          rw [he] at hdok
          cases hdok
      · exact fun c hc => absurd hc List.not_mem_nil
    · have hfile' : HasCredentials appInfo (credentials ++ [(call.hash sha256, keyfile)])
          added.1.keystore := by
        rw [hcontents]
        exact Or.inr hwhole
      have hnoSpace' : Json.NoSpaceFields (credentials ++ [(call.hash sha256, keyfile)]) :=
        Json.noSpaceFields_concat hnoSpace (sha256.noSpace _ call.valid)
          (keyfiles.noSpace _ _ _ _ hcreate)
      have hopens' : List.Forall₂ (Opens sha256 keyfiles) (s.stored ++ [call])
          (credentials ++ [(call.hash sha256, keyfile)]) :=
        List.rel_append hopens
          (.cons ⟨rfl, keyfiles.decode_create _ _ _ _ hcreate⟩ .nil)
      have hkeys' : credentialKeys appInfo added.1 = (s.stored ++ [call]).map (Call.hash sha256) := by
        rw [credentialKeys_eq happ hnoSpace' hfile', keys_of_opens hopens']
      rw [hkeys', List.filter_eq_self.2 fun c hc => decide_eq_true (List.mem_map_of_mem hc)]
      exact h.newStored (fun c hc hkey => hnew' ((h.hash_mem_iff happ).2 ⟨c, hc, hkey⟩)) hfile'
        hnoSpace' hopens'

/-! ### Queries -/

theorem lookup_of_opens {calls : List (Call ρ)} {credentials : List (Text × Json)}
    (hopens : List.Forall₂ (Opens sha256 keyfiles) calls credentials)
    (hdistinct : (calls.map (Call.hash sha256)).Nodup) {c : Call ρ} (hc : c ∈ calls) :
    ∃ keyfile, credentials.lookup (c.hash sha256) = some keyfile ∧
      keyfiles.decodeKeyFileJson keyfile c.password = .ok (encode c.membership) := by
  induction hopens with
  | nil => cases hc
  | @cons head credential calls credentials hhead hrest ih =>
      rw [List.map_cons, List.nodup_cons] at hdistinct
      obtain ⟨key, keyfile⟩ := credential
      obtain ⟨rfl, hdecode⟩ : key = head.hash sha256 ∧ _ := hhead
      rcases List.mem_cons.1 hc with rfl | hc
      · exact ⟨keyfile, by rw [List.lookup_cons, beq_self_eq_true], hdecode⟩
      · have hne : (c.hash sha256 == head.hash sha256) = false := by
          rw [beq_eq_false_iff_ne]
          exact fun heq => hdistinct.1 (heq ▸ List.mem_map_of_mem hc)
        obtain ⟨found, hfound, hopen⟩ := ih hdistinct.2 hc
        refine ⟨found, ?_, hopen⟩
        rw [List.lookup_cons, hne]
        exact hfound

theorem queriedCredential_of_opens {calls : List (Call ρ)} {credentials : List (Text × Json)}
    (hopens : List.Forall₂ (Opens sha256 keyfiles) calls credentials)
    (hdistinct : (calls.map (Call.hash sha256)).Nodup) {c : Call ρ} (hc : c ∈ calls)
    {query : KeystoreMembership} (hquery : query.hash sha256 = c.hash sha256) :
    ∃ keyfile, queriedCredential sha256 credentials query = .ok keyfile ∧
      keyfiles.decodeKeyFileJson keyfile c.password = .ok (encode c.membership) := by
  obtain ⟨keyfile, hlookup, hdecode⟩ := lookup_of_opens hopens hdistinct hc
  rw [← hquery] at hlookup
  match credentials, hopens with
  | [], .nil => cases hc
  | [credential], .cons hhead .nil =>
      obtain rfl := List.mem_singleton.1 hc
      exact ⟨credential.2, rfl, hhead.2⟩
  | _ :: _ :: _, _ =>
      rw [queriedCredential]
      · rw [hlookup]
        exact ⟨keyfile, rfl, hdecode⟩
      · simp
      · simp

theorem whole_of_stored {credentials : List (Text × Json)} {keystore : Option Text}
    (h : HasCredentials appInfo credentials keystore) (hne : credentials ≠ []) :
    ∃ contents, keystore = some contents ∧ Whole appInfo credentials contents := by
  cases keystore with
  | none => exact absurd h hne
  | some contents => exact ⟨contents, rfl, h.resolve_left fun hbroken => hne hbroken.2⟩

theorem getMembershipCredentials_whole (happ : appInfo.NoSpace) {credentials : List (Text × Json)}
    (hnoSpace : Json.NoSpaceFields credentials) {files : Files} {contents : Text}
    (hcontents : files.keystore = some contents) (hwhole : Whole appInfo credentials contents)
    (password : Text) (query : KeystoreMembership) :
    getMembershipCredentials sha256 keyfiles files password query appInfo =
      match queriedCredential sha256 credentials query with
      | .error e => some (.error e)
      | .ok keystoreCredential =>
          match keyfiles.decodeKeyFileJson keystoreCredential password with
          | .error e => some (.error ⟨.keystoreReadKeyfileError, e⟩)
          | .ok decodedKeyfile => (decode decodedKeyfile).map .ok := by
  rw [getMembershipCredentials, load_whole happ hnoSpace hcontents hwhole rfl]
  dsimp only
  rw [lookup_credentials]
  rfl

/-- A query makes an empty keystore where it finds none. -/
theorem getMembershipCredentials_missing (happ : appInfo.NoSpace) {files : Files}
    (hmissing : files.keystore = none) (password : Text) (query : KeystoreMembership) :
    getMembershipCredentials sha256 keyfiles files password query appInfo =
      some (.error ⟨.keystoreCredentialNotFoundError, "No credentials found in keystore"⟩) := by
  rw [getMembershipCredentials, load_missing happ hmissing]
  dsimp only
  rw [lookup_credentials]
  rfl

/-- A call that cannot open the file again after it became the backup loses what was stored. -/
theorem Sound.lost (happ : appInfo.NoSpace) (h : Sound sha256 keyfiles appInfo s)
    (hstored : s.stored ≠ []) (hfault : fails call.fault .openToSave = true)
    (hnew : call.hash sha256 ∉ credentialKeys appInfo s.files)
    (hcreate : (keyfiles.createKeyFileJson (encode call.membership) call.password
      call.draw).isOk = true) :
    (s.step sha256 keyfiles appInfo call).files.keystore = none := by
  rw [h.keys happ] at hnew
  obtain ⟨credentials, hfile, hnoSpace, hopens⟩ := h.file
  have hne : credentials ≠ [] := by
    rintro rfl
    exact hstored (List.length_eq_zero_iff.1 hopens.length_eq)
  obtain ⟨contents, hcontents, hwhole⟩ := whole_of_stored hfile hne
  have hload := load_whole happ hnoSpace hcontents hwhole (fails_unique hfault (by decide))
  have hkey : (Json.obj credentials).hasKey (call.membership.hash sha256) = false := by
    rw [← Bool.not_eq_true, hasKey_iff, keys_of_opens hopens]
    exact hnew
  cases hkeyfile : keyfiles.createKeyFileJson (encode call.membership) call.password call.draw with
  | error e =>
      rw [hkeyfile] at hcreate
      cases hcreate
  | ok keyfile =>
      simp only [Session.step, addMembershipCredentials, hload, lookup_credentials, hkey, hkeyfile,
        Bool.false_eq_true, if_false, save_of_openToSave hfault hcontents]

theorem Sound.kept (happ : appInfo.NoSpace) (h : Sound sha256 keyfiles appInfo s) :
    Kept sha256 keyfiles appInfo s := by
  have hkeys := h.keys happ
  obtain ⟨credentials, hfile, hnoSpace, hopens⟩ := h.file
  have hlength := hopens.length_eq
  constructor
  · intro call query hfirst hquery
    obtain ⟨d, hd, rfl⟩ := Option.map_eq_some_iff.1 hfirst
    obtain ⟨hkey, hdok⟩ : d.1.key = d.1.key ∧ d.2.isOk = true := by simpa using List.find?_some hd
    obtain ⟨c, hc, hckey⟩ := h.added d (List.mem_of_find?_eq_some hd) hdok
    rw [← hckey] at hfirst
    obtain ⟨hmembership, hpassword⟩ := h.first c hc d.1 hfirst
    have hhash : query.hash sha256 = c.hash sha256 := by
      rw [Call.hash, KeystoreMembership.hash, KeystoreMembership.hash,
        keyText_congr (hquery.trans hckey.symm)]
    obtain ⟨keyfile, hqueried, hdecode⟩ :=
      queriedCredential_of_opens hopens h.distinct hc hhash
    have hne : credentials ≠ [] := by
      rintro rfl
      rw [List.length_nil, List.length_eq_zero_iff] at hlength
      rw [hlength] at hc
      cases hc
    obtain ⟨contents, hcontents, hwhole⟩ := whole_of_stored hfile hne
    rw [getMembershipCredentials_whole happ hnoSpace hcontents hwhole, hqueried]
    dsimp only
    rw [hpassword, hdecode]
    dsimp only
    rw [decode_encode c.treeIndex_lt c.userMessageLimit_lt, Option.map_some, hmembership]
  · intro query password hvalid htwo hother
    rw [hkeys, List.length_map, hlength] at htwo
    have hlookup : credentials.lookup (query.hash sha256) = none := by
      rw [Json.lookup_eq_none_iff, keys_of_opens hopens]
      intro hmem
      obtain ⟨c, hc, hhash⟩ := List.mem_map.1 hmem
      obtain ⟨d, hd, rfl⟩ := h.stored c hc
      refine hother d hd ((hash_eq_iff sha256 d.1.valid hvalid).1 hhash) ?_
      rw [hkeys]
      exact List.mem_map_of_mem hc
    have hne : credentials ≠ [] := by
      rintro rfl
      exact absurd htwo (by decide)
    obtain ⟨contents, hcontents, hwhole⟩ := whole_of_stored hfile hne
    have hqueried : queriedCredential sha256 credentials query =
        .error ⟨.keystoreCredentialNotFoundError, severalCredentials⟩ := by
      match credentials, htwo, hlookup with
      | _ :: _ :: _, _, hlookup =>
          rw [queriedCredential]
          · rw [hlookup]
          · simp
          · simp
    rw [getMembershipCredentials_whole happ hnoSpace hcontents hwhole, hqueried]

/-! ### Two additions -/

/-- After the first call of all, if nothing fails in it. -/
theorem after_first (happ : appInfo.NoSpace) (hfault : call.fault = none) {keyfile : Json}
    (hcreate : keyfiles.createKeyFileJson (encode call.membership) call.password call.draw =
      .ok keyfile) :
    Sound sha256 keyfiles appInfo (after sha256 keyfiles appInfo [call]) ∧
      (after sha256 keyfiles appInfo [call]).done = [(call, .ok ())] ∧
      (after sha256 keyfiles appInfo [call]).stored ≠ [] ∧
      ∀ c ∈ (after sha256 keyfiles appInfo [call]).stored, c = call := by
  have hmeets : Meets sha256 keyfiles appInfo new call := by
    refine ⟨fun hfail => ?_, fun _ c hc => absurd hc List.not_mem_nil⟩
    rw [hfault] at hfail
    cases hfail
  have hsound : Sound sha256 keyfiles appInfo (after sha256 keyfiles appInfo [call]) :=
    Sound.new.step happ hmeets
  have hload := @load_missing _ happ ⟨none, none⟩ rfl
  have hdone : (after sha256 keyfiles appInfo [call]).done = [(call, .ok ())] := by
    change [(call, (addMembershipCredentials sha256 keyfiles call.fault ⟨none, none⟩
      call.membership call.password call.draw appInfo newline).2)] = _
    simp only [hfault, addMembershipCredentials, hload, Json.hasKey, Json.field?, hcreate]
    rfl
  refine ⟨hsound, hdone, ?_, ?_⟩
  · intro hnil
    obtain ⟨c, hc, -⟩ := hsound.added (call, .ok ()) (hdone ▸ List.mem_singleton_self _) rfl
    rw [hnil] at hc
    cases hc
  · intro c hc
    obtain ⟨d, hd, rfl⟩ := hsound.stored c hc
    rw [hdone, List.mem_singleton] at hd
    rw [hd]

/-- The second call loses the credential of the first. -/
theorem not_kept (happ : appInfo.NoSpace) {first second : Call ρ} (hfirst : first.fault = none)
    (hsecond : fails second.fault .openToSave = true) (hne : first.key ≠ second.key)
    (hcreateFirst : (keyfiles.createKeyFileJson (encode first.membership) first.password
      first.draw).isOk = true)
    (hcreateSecond : (keyfiles.createKeyFileJson (encode second.membership) second.password
      second.draw).isOk = true) :
    ¬ Kept sha256 keyfiles appInfo (after sha256 keyfiles appInfo [first, second]) := by
  intro hkept
  cases hkeyfile : keyfiles.createKeyFileJson (encode first.membership) first.password
      first.draw with
  | error e =>
      rw [hkeyfile] at hcreateFirst
      cases hcreateFirst
  | ok keyfile =>
      obtain ⟨hsound, hdone, hstored, hall⟩ := after_first happ hfirst hkeyfile
      have hafter : after sha256 keyfiles appInfo [first, second] =
          (after sha256 keyfiles appInfo [first]).step sha256 keyfiles appInfo second := rfl
      have hnew : second.hash sha256 ∉
          credentialKeys appInfo (after sha256 keyfiles appInfo [first]).files := by
        rw [hsound.hash_mem_iff happ]
        rintro ⟨c, hc, hkey⟩
        rw [hall c hc] at hkey
        exact hne hkey
      have hmissing := hsound.lost happ hstored hsecond hnew hcreateSecond
      have hfirstOk : (after sha256 keyfiles appInfo [first, second]).firstOk first.key =
          some first := by
        rw [hafter, Session.step, firstOk_append, firstOk, hdone]
        simp [Except.isOk, Except.toBool]
      have hget := hkept.found first first.membership hfirstOk rfl
      rw [hafter, getMembershipCredentials_missing happ hmissing] at hget
      cases hget

end Session

/-! ### Two keyfiles -/

/-- The last `length` digits of a number. -/
def hexText (digits : Fin 16 → Char) : ℕ → ℕ → Text
  | 0, _ => []
  | length + 1, n => hexText digits length (n / 16) ++ [digits (Fin.ofNat 16 n)]

theorem length_hexText (digits : Fin 16 → Char) : ∀ length n,
    (hexText digits length n).length = length
  | 0, _ => rfl
  | length + 1, n => by rw [hexText, List.length_append, length_hexText digits length]; rfl

theorem forall_hexText {digits : Fin 16 → Char} {p : Char → Prop} (h : ∀ d, p (digits d)) :
    ∀ length n, ∀ c ∈ hexText digits length n, p c
  | 0, _, _, hc => absurd hc List.not_mem_nil
  | length + 1, n, c, hc => by
      rcases List.mem_append.1 hc with hc | hc
      · exact forall_hexText h length (n / 16) c hc
      · rw [List.mem_singleton.1 hc]
        exact h _

/-- Digests have capital letters and the texts of a keyfile small ones. -/
def digestText (n : ℕ) : Text := hexText (fun d => (Nat.digitChar d).toUpper) 64 n

def bytesText (length n : ℕ) : Text := hexText (fun d => Nat.digitChar d) (2 * length) n

theorem notMem_digestText {c : Char} (h : ∀ d : Fin 16, (Nat.digitChar d).toUpper ≠ c) (n : ℕ) :
    c ∉ digestText n :=
  fun hc => forall_hexText (p := fun c' => c' ≠ c) h 64 n c hc rfl

theorem space_notMem_bytesText (length n : ℕ) : ' ' ∉ bytesText length n :=
  fun hc => forall_hexText (p := fun c => c ≠ ' ') (by decide) (2 * length) n ' ' hc rfl

theorem space_notMem_keyText {m : KeystoreMembership} (hm : m.membershipContract.Valid) :
    ' ' ∉ keyText m := by
  obtain ⟨⟨-, hdigits⟩, hex, haddress, -, hhex⟩ := hm
  rw [keyText, haddress]
  intro hspace
  rcases List.mem_append.1 hspace with hspace | hspace
  · rcases List.mem_append.1 hspace with hspace | hspace
    · cases hdigits _ hspace
    · simp only [List.mem_cons, Char.reduceEq, false_or] at hspace
      exact absurd (hhex _ hspace) (by decide)
  · cases Json.isDigit_of_mem_toDigits hspace

def sampleContract : MembershipContract :=
  ⟨['5'], '0' :: 'x' :: bytesText 20 0x0123456789012345678901234567890123456789⟩

theorem sampleContract_valid : sampleContract.Valid := by
  refine ⟨⟨List.cons_ne_nil _ _, ?_⟩, _, rfl, length_hexText _ _ _, ?_⟩
  · intro c hc
    obtain rfl := List.mem_singleton.1 hc
    rfl
  · exact forall_hexText (by decide) _ _

def firstMembership : KeystoreMembership := ⟨sampleContract, 1, ⟨[1], [2], [3], [4]⟩, 20⟩

def secondMembership : KeystoreMembership := ⟨sampleContract, 2, ⟨[5], [6], [7], [8]⟩, 20⟩

def firstDigest : Text := digestText 0x74B6340DAEB78A97FD648A6B697AE964501CE8D57F621FA4D2B5CFA2788070C2

def secondDigest : Text :=
  digestText 0xFA045205E61B5942667796610C2BECDA551B7ABD81F311A6CE965D6B9C604272

/-- SHA-256 on the two memberships. -/
def sampleSha256 : Sha256 where
  digest text :=
    if text = keyText firstMembership then firstDigest
    else if text = keyText secondMembership then secondDigest
    else 'x' :: text
  injective m m' _ _ h := by
    have hother : ∀ n text, digestText n ≠ 'x' :: text := fun n text heq =>
      notMem_digestText (by decide) n (heq ▸ List.mem_cons_self ..)
    have hne : firstDigest ≠ secondDigest := by decide
    split_ifs at h with hm hm' hm' hm2 hm' hm2' hm' hm2'
    · rw [hm, hm']
    · exact absurd h hne
    · exact absurd h (hother _ _)
    · exact absurd h.symm hne
    · rw [hm2, hm2']
    · exact absurd h (hother _ _)
    · exact absurd h.symm (hother _ _)
    · exact absurd h.symm (hother _ _)
    · exact (List.cons.inj h).2
  noSpace m hm := by
    split_ifs
    · exact notMem_digestText (by decide) _
    · exact notMem_digestText (by decide) _
    · rw [List.mem_cons, not_or]
      exact ⟨by decide, space_notMem_keyText hm⟩

/-- The ciphertext is given in pieces of 45 bytes. -/
def keyfileJson (iv : ℕ) (ciphertext : List ℕ) (salt mac : ℕ) : Json :=
  .obj [
    ("crypto".toList, .obj [
      ("cipher".toList, .str "aes-128-ctr".toList),
      ("cipherparams".toList, .obj [("iv".toList, .str (bytesText 16 iv))]),
      ("ciphertext".toList, .str (ciphertext.flatMap (bytesText 45))),
      ("kdf".toList, .str "pbkdf2".toList),
      ("kdfparams".toList, .obj [
        ("dklen".toList, .int 32),
        ("c".toList, .int 1000000),
        ("prf".toList, .str "hmac-sha256".toList),
        ("salt".toList, .str (bytesText 16 salt))]),
      ("mac".toList, .str (bytesText 32 mac))]),
    ("id".toList, .str []),
    ("version".toList, .str [])]

theorem keyfileJson_noSpace (iv : ℕ) (ciphertext : List ℕ) (salt mac : ℕ) :
    (keyfileJson iv ciphertext salt mac).NoSpace := by
  have hciphertext : ' ' ∉ ciphertext.flatMap (bytesText 45) := by
    intro hspace
    obtain ⟨n, -, hn⟩ := List.mem_flatMap.1 hspace
    exact space_notMem_bytesText 45 n hn
  have hfixed : ∀ s ∈ ["crypto", "cipher", "cipherparams", "iv", "ciphertext", "kdf", "kdfparams",
      "dklen", "c", "prf", "salt", "mac", "id", "version", "aes-128-ctr", "pbkdf2", "hmac-sha256"],
      ' ' ∉ s.toList := by decide
  simp only [List.forall_mem_cons] at hfixed
  simp only [keyfileJson, Json.NoSpace, Json.NoSpaceFields, space_notMem_bytesText, hciphertext, hfixed,
    List.not_mem_nil, not_false_eq_true, and_self]

def keyfileMac (keyfile : Json) : Option Text :=
  ((keyfile.field? "crypto".toList).bind fun crypto => crypto.field? "mac".toList).map Json.getStr

theorem keyfileMac_keyfileJson (iv : ℕ) (ciphertext : List ℕ) (salt mac : ℕ) :
    keyfileMac (keyfileJson iv ciphertext salt mac) = some (bytesText 32 mac) := by
  simp [keyfileMac, keyfileJson, Json.field?, List.lookup, Json.getStr]

def samplePassword : Text := "%m0um0ucoW%".toList

def firstMac : ℕ := 0xe89093dc7d49d1fea81b2a27c4b0234e0545042eaf7aa84f1ce788bea61ac6d7

def secondMac : ℕ := 0xacd728a699249bde7061908c40cb7eb3473c1215fe0fe572ddfa230a7a67f835

def firstKeyfile : Json :=
  keyfileJson 0x101112131415161718191a1b1c1d1e1f
    [0x40e85a08a09a32d9b6620c6a43e4e93aabe1f0ff020171c874dc6bf37860d394ba002f5d1cec36be30f56e9c6c,
     0x730bd4208273b080314acc2d954822e4239f70a10dd3eae398413d28a630f9f33bba0172fe1c555f0e9f49f131,
     0x11382964419107c3d19a6a7007993612e1b746f27ad88cdae25663ae70bb68b7d2df107dd463e22158773537b5,
     0x97383b01338be7426e2bfd687c2561e2aa65d077b5d00d5a1c30da6eede426b007fc19a8e271c09bcb8d4a6d08,
     0x3462f024024f96e8a0618c72d5cff3b0b0f49a8b92204c95bad5bb452eccf54ac12f4fb30a64c635349e27ac03]
    0x303132333435363738393a3b3c3d3e3f firstMac

def secondKeyfile : Json :=
  keyfileJson 0x202122232425262728292a2b2c2d2e2f
    [0x4babd370957edeff7741632874f49baba08456ab94b7d7b73d995be1336cf11334c3ff54e90d2690d39e4254e8,
     0xb64a49d0831b526bf8d3caf029e8c7fcd7e70bcf5ab3cbefd7b91a2d7e98abd52fc11dfa362d99b7ccf30c5124,
     0x855f695d7cba9e1cb45868324ac707d118280973fae6c011bcd8f82e0107c3698f1a06ad245ebc13d6c9fe8f4c,
     0xb604646ceae21d7016de44a8926a544c38cbe6f9c72f78487d50dc12cb47e49adebc84d6c8093dc1d49698550a,
     0xcce3e477c1af32eb796b51dcc66ca79c1b27f14446f3a9ea3717e5d73e1c232023754174564d9d7750d061b1c8]
    0x404142434445464748494a4b4c4d4e4f secondMac

/-- The codes of the characters of a text. -/
def codes (text : Text) : Json := .arr (text.map fun c => .int c.toNat)

def textOfCodes (node : Json) : Text := node.getElems.map fun code => Char.ofNat (getBiggestInt code)

theorem textOfCodes_codes (text : Text) : textOfCodes (codes text) = text := by
  have hchar : ∀ c : Char, Char.ofNat (getBiggestInt (.int c.toNat)) = c := by
    intro c
    have hlt : c.toNat < 2 ^ 63 := lt_trans c.val.toNat_lt (by decide)
    rw [getBiggestInt_int hlt, Char.ofNat_toNat]
  rw [textOfCodes, codes, Json.getElems, List.map_map]
  exact (List.map_congr_left fun c _ => hchar c).trans (List.map_id text)

theorem codes_noSpace (text : Text) : (codes text).NoSpace := by
  rw [codes, Json.NoSpace]
  induction text with
  | nil => trivial
  | cons c text ih => exact ⟨trivial, ih⟩

/-- The keyfiles of the two memberships under the password, from the draws `0` and `1`. -/
def sampleKeyfiles : KeyfileLibrary ℕ where
  createKeyFileJson secret pass draw :=
    if (secret = encode firstMembership ∧ pass = samplePassword) ∧ draw = 0 then .ok firstKeyfile
    else if (secret = encode secondMembership ∧ pass = samplePassword) ∧ draw = 1 then .ok secondKeyfile
    else .ok (.arr [codes secret, codes pass])
  decodeKeyFileJson keyfile pass :=
    match keyfile.getElems with
    | [secret, pass'] =>
        if textOfCodes pass' = pass then .ok (textOfCodes secret)
        else .error "keyfile error: mac verification failed"
    | _ =>
        if keyfileMac keyfile = some (bytesText 32 firstMac) ∧ pass = samplePassword then
          .ok (encode firstMembership)
        else if keyfileMac keyfile = some (bytesText 32 secondMac) ∧ pass = samplePassword then
          .ok (encode secondMembership)
        else .error "keyfile error: mac verification failed"
  decode_create secret pass draw keyfile h := by
    have hne : bytesText 32 secondMac ≠ bytesText 32 firstMac := by decide
    split_ifs at h with hfirst hsecond
    · obtain rfl := Except.ok.inj h
      obtain ⟨⟨rfl, rfl⟩, -⟩ := hfirst
      exact if_pos ⟨keyfileMac_keyfileJson .., rfl⟩
    · obtain rfl := Except.ok.inj h
      obtain ⟨⟨rfl, rfl⟩, -⟩ := hsecond
      have hmac : keyfileMac secondKeyfile = some (bytesText 32 secondMac) :=
        keyfileMac_keyfileJson ..
      refine (if_neg fun hmac' => hne ?_).trans (if_pos ⟨hmac, rfl⟩)
      exact Option.some.inj (hmac.symm.trans hmac'.1)
    · obtain rfl := Except.ok.inj h
      dsimp only [Json.getElems]
      rw [textOfCodes_codes, if_pos rfl, textOfCodes_codes]
  noSpace secret pass draw keyfile h := by
    split_ifs at h
    · obtain rfl := Except.ok.inj h
      exact keyfileJson_noSpace ..
    · obtain rfl := Except.ok.inj h
      exact keyfileJson_noSpace ..
    · obtain rfl := Except.ok.inj h
      exact ⟨codes_noSpace secret, codes_noSpace pass, trivial⟩

/-- `RLNAppInfo`. -/
def rlnAppInfo : AppInfo := ⟨"waku-rln-relay".toList, "01234567890abcdef".toList, "0.2".toList⟩

theorem rlnAppInfo_noSpace : rlnAppInfo.NoSpace := ⟨by decide, by decide, by decide⟩

namespace Session

def addFirst : Call ℕ :=
  ⟨firstMembership, samplePassword, 0, none, sampleContract_valid, by decide, by decide⟩

def addSecond (fault : Option Fault) : Call ℕ :=
  ⟨secondMembership, samplePassword, 1, fault, sampleContract_valid, by decide, by decide⟩

theorem keys_ne (fault : Option Fault) : addFirst.key ≠ (addSecond fault).key := by
  intro h
  exact absurd (congrArg Prod.snd h) (show (1 : ℕ) ≠ 2 by decide)

theorem create_first :
    sampleKeyfiles.createKeyFileJson (encode firstMembership) samplePassword 0 = .ok firstKeyfile := by
  simp only [sampleKeyfiles, and_self, if_true]

theorem create_second :
    sampleKeyfiles.createKeyFileJson (encode secondMembership) samplePassword 1 = .ok secondKeyfile := by
  simp only [sampleKeyfiles, one_ne_zero, and_false, and_self, if_false, if_true]

/-- In every sequence of additions that each meet the condition, no credential is lost. -/
theorem kept_after_additions {ρ : Type} {sha256 : Sha256} {keyfiles : KeyfileLibrary ρ} {appInfo : AppInfo}
    (happ : appInfo.NoSpace) (calls : List (Call ρ))
    (h : AllSteps (fun past call =>
      Meets sha256 keyfiles appInfo (after sha256 keyfiles appInfo past) call) calls) :
    Kept sha256 keyfiles appInfo (after sha256 keyfiles appInfo calls) := by
  refine Sound.kept happ (run_induction
    (P := fun calls => Sound sha256 keyfiles appInfo (after sha256 keyfiles appInfo calls))
    Sound.new ?_ calls h)
  intro past call hmeets ih
  rw [after, run_concat]
  exact ih.step happ hmeets

/-- The write of the second call fails after ten characters, and its backup is restored. -/
theorem kept_restored : Kept sampleSha256 sampleKeyfiles rlnAppInfo
    (after sampleSha256 sampleKeyfiles rlnAppInfo
      [addFirst, addSecond (some ⟨.saveWrite, 10⟩)]) := by
  refine kept_after_additions rlnAppInfo_noSpace [addFirst, addSecond (some ⟨.saveWrite, 10⟩)]
    ((allSteps_nil.concat ?_).concat ?_)
  · exact ⟨fun hfail => absurd hfail (by decide), fun _ c hc => absurd hc List.not_mem_nil⟩
  · refine ⟨fun hfail => absurd hfail (by decide), fun _ c hc hkey => ?_⟩
    have hfirst : addFirst.fault = none := rfl
    obtain ⟨-, -, -, hall⟩ := after_first rlnAppInfo_noSpace hfirst create_first
    rw [hall c hc] at hkey
    exact absurd hkey (keys_ne _)

/-- The second call cannot open the file after it became the backup. -/
theorem lost_by_open : ¬ ∀ (sha256 : Sha256) (keyfiles : KeyfileLibrary ℕ) (appInfo : AppInfo)
    (calls : List (Call ℕ)), appInfo.NoSpace →
    Kept sha256 keyfiles appInfo (after sha256 keyfiles appInfo calls) := by
  intro hkept
  refine not_kept rlnAppInfo_noSpace rfl ?_ (keys_ne (some ⟨.openToSave, 0⟩)) ?_ ?_
    (hkept sampleSha256 sampleKeyfiles rlnAppInfo _ rlnAppInfo_noSpace)
  · decide
  · exact congrArg Except.isOk create_first
  · exact congrArg Except.isOk create_second

end Session

end LogosDelivery.Keystore
