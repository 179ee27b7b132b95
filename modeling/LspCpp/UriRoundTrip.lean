import LspCpp.UriNormal

/-! A path that is made a file URI and read back. The bytes are escaped and the escapes are read again; the component
behind two slashes is the authority of the URI and comes back unless it is that of the local machine. -/

namespace LspCpp

/-- A byte that stands for itself in a URI. -/
def IsPlain (c : UInt8) : Prop := (c == 47 || isUnreservedUriPathByte c) = true

instance (c : UInt8) : Decidable (IsPlain c) := inferInstanceAs (Decidable (_ = true))

theorem IsPlain.bounds {c : UInt8} (h : IsPlain c) : c ≠ 37 ∧ c ≠ 92 ∧ c ≠ 63 ∧ c ≠ 35 := by
  refine ⟨?_, ?_, ?_, ?_⟩ <;> rintro rfl <;> exact absurd h (by decide)

theorem percentEncodeByte_plain {c : UInt8} (h : IsPlain c) : percentEncodeByte c = [c] := if_pos h

theorem percentEncodeByte_escaped {c : UInt8} (h : ¬IsPlain c) :
    percentEncodeByte c = [37, hexDigit (c / 16), hexDigit (c % 16)] := if_neg h

theorem hexDigit_spec (n : UInt8) (hn : n < 16) :
    isHex (hexDigit n) = true ∧ hexValue (hexDigit n) = n ∧ hexDigit n ≠ 47 ∧ hexDigit n ≠ 63 ∧ hexDigit n ≠ 35 := by
  have hall : ∀ k < 16, isHex (hexDigit (UInt8.ofNat k)) = true ∧
      hexValue (hexDigit (UInt8.ofNat k)) = UInt8.ofNat k ∧ hexDigit (UInt8.ofNat k) ≠ 47 ∧
      hexDigit (UInt8.ofNat k) ≠ 63 ∧ hexDigit (UInt8.ofNat k) ≠ 35 := by decide
  have h := hall n.toNat (UInt8.lt_iff_toNat_lt.mp hn)
  rwa [UInt8.ofNat_toNat] at h

theorem highDigit_lt (c : UInt8) : c / 16 < 16 := by
  rw [UInt8.lt_iff_toNat_lt, UInt8.toNat_div]
  have := c.toNat_lt
  change c.toNat / 16 < 16
  omega

theorem lowDigit_lt (c : UInt8) : c % 16 < 16 := by
  rw [UInt8.lt_iff_toNat_lt, UInt8.toNat_mod]
  exact Nat.mod_lt _ (by decide)

theorem digits_eq (c : UInt8) : c / 16 * 16 + c % 16 = c := by
  apply UInt8.toNat_inj.mp
  rw [UInt8.toNat_add, UInt8.toNat_mul, UInt8.toNat_div, UInt8.toNat_mod]
  have := c.toNat_lt
  change (c.toNat / 16 * 16 % 2 ^ 8 + c.toNat % 16) % 2 ^ 8 = c.toNat
  omega

theorem percentDecodeFilePath_cons {c : UInt8} (hc : c ≠ 37) (rest : Bytes) :
    percentDecodeFilePath (c :: rest) = plainByte c :: percentDecodeFilePath rest := by
  match rest with
  | [] => rfl
  | [_] => rfl
  | a :: b :: rest => simp [percentDecodeFilePath, hc]

/-- One encoded byte is read back; a backslash is escaped. -/
theorem percentDecode_percentEncodeByte (c : UInt8) (rest : Bytes) :
    percentDecodeFilePath (percentEncodeByte c ++ rest) = c :: percentDecodeFilePath rest := by
  by_cases hplain : IsPlain c
  · rw [percentEncodeByte_plain hplain, List.singleton_append, percentDecodeFilePath_cons hplain.bounds.1,
      plainByte, if_neg hplain.bounds.2.1]
  · obtain ⟨hhigh, hhighValue, _⟩ := hexDigit_spec _ (highDigit_lt c)
    obtain ⟨hlow, hlowValue, _⟩ := hexDigit_spec _ (lowDigit_lt c)
    rw [percentEncodeByte_escaped hplain]
    simp [percentDecodeFilePath, hhigh, hlow, hhighValue, hlowValue, digits_eq]

theorem percentDecode_percentEncode (path : Bytes) : percentDecodeFilePath (percentEncodeFilePath path) = path := by
  induction path with
  | nil => rfl
  | cons c path ih =>
      rw [percentEncodeFilePath, List.flatMap_cons, percentDecode_percentEncodeByte]
      exact congrArg (c :: ·) ih

/-- The bytes that an escaped path does not have. -/
theorem mem_percentEncodeByte {b c : UInt8} (hb : b ∈ percentEncodeByte c) :
    b ≠ 63 ∧ b ≠ 35 ∧ (c ≠ 47 → b ≠ 47) := by
  by_cases hplain : IsPlain c
  · rw [percentEncodeByte_plain hplain] at hb
    rw [List.mem_singleton.mp hb]
    exact ⟨hplain.bounds.2.2.1, hplain.bounds.2.2.2, id⟩
  · obtain ⟨_, _, hhigh⟩ := hexDigit_spec _ (highDigit_lt c)
    obtain ⟨_, _, hlow⟩ := hexDigit_spec _ (lowDigit_lt c)
    rw [percentEncodeByte_escaped hplain] at hb
    rcases List.mem_cons.mp hb with rfl | hb
    · exact ⟨by decide, by decide, fun _ => by decide⟩
    · rcases List.mem_cons.mp hb with rfl | hb
      · exact ⟨hhigh.2.1, hhigh.2.2, fun _ => hhigh.1⟩
      · rw [List.mem_singleton.mp hb]
        exact ⟨hlow.2.1, hlow.2.2, fun _ => hlow.1⟩

theorem stripUriPathSuffix_percentEncode (path : Bytes) :
    stripUriPathSuffix (percentEncodeFilePath path) = percentEncodeFilePath path := by
  rw [stripUriPathSuffix, List.takeWhile_eq_self_iff]
  intro b hb
  obtain ⟨c, _, hbc⟩ := List.mem_flatMap.mp hb
  have := mem_percentEncodeByte hbc
  simp [this.1, this.2.1]

/-- A host without a slash is all of the authority. -/
theorem isDelimiter_percentEncode {host : Bytes} (hhost : 47 ∉ host) :
    ∀ b ∈ percentEncodeFilePath host, (!isDelimiter b) = true := by
  intro b hb
  obtain ⟨c, hc, hbc⟩ := List.mem_flatMap.mp hb
  have hne : c ≠ 47 := fun heq => hhost (heq ▸ hc)
  have := mem_percentEncodeByte hbc
  simp [isDelimiter, this.1, this.2.1, this.2.2 hne]

theorem percentEncode_eq_self {path : Bytes} (h : ∀ c ∈ path, IsPlain c) : percentEncodeFilePath path = path := by
  induction path with
  | nil => rfl
  | cons c path ih =>
      rw [percentEncodeFilePath, List.flatMap_cons, percentEncodeByte_plain (h c (List.mem_cons_self ..)),
        List.singleton_append]
      exact congrArg (c :: ·) (ih fun c' hc' => h c' (List.mem_cons_of_mem _ hc'))

theorem isPlain_of_toLowerAscii {c : UInt8} (h : toLowerAscii c ∈ bytesOf "localhost") : IsPlain c := by
  have hall : ∀ b ∈ bytesOf "localhost", IsPlain b := List.all_eq_true.mp (by decide)
  rw [toLowerAscii] at h
  split_ifs at h with hupper
  · simp [IsPlain, isUnreservedUriPathByte, hupper]
  · exact hall c h

/-- An escape shows in the authority, which is then not `localhost`. -/
theorem isLocalhostAuthority_percentEncode (host : Bytes) :
    isLocalhostAuthority (percentEncodeFilePath host) = isLocalhostAuthority host := by
  by_cases hplain : ∀ c ∈ host, IsPlain c
  · rw [percentEncode_eq_self hplain]
  · push Not at hplain
    obtain ⟨c, hc, hescaped⟩ := hplain
    have hmem : 37 ∈ percentEncodeFilePath host := by
      refine List.mem_flatMap.mpr ⟨c, hc, ?_⟩
      rw [percentEncodeByte_escaped hescaped]
      exact List.mem_cons_self ..
    have hencoded : ¬(percentEncodeFilePath host).map toLowerAscii = bytesOf "localhost" := by
      intro heq
      have h37 : toLowerAscii 37 ∈ bytesOf "localhost" := heq ▸ List.mem_map_of_mem hmem
      exact absurd h37 (by decide)
    have hhost : ¬host.map toLowerAscii = bytesOf "localhost" := by
      intro heq
      have hlower : toLowerAscii c ∈ bytesOf "localhost" := heq ▸ List.mem_map_of_mem hc
      exact hescaped (isPlain_of_toLowerAscii hlower)
    rw [isLocalhostAuthority, isLocalhostAuthority, beq_eq_false_iff_ne.mpr hencoded,
      beq_eq_false_iff_ne.mpr hhost, Bool.and_false, Bool.and_false]

/-! ### From a path to its URI and back -/

theorem normalizePathSeparators_eq {path : Bytes} (hpath : 92 ∉ path) : normalizePathSeparators path = path := by
  have hid : ∀ c ∈ path, (if c = 92 then 47 else c) = c := by
    intro c hc
    exact if_neg fun heq : c = 92 => hpath (heq ▸ hc)
  rw [normalizePathSeparators, List.map_congr_left hid, List.map_id']

/-- The URI of a path that begins with a slash has the path behind its scheme, or the host where two slashes
begin it. -/
theorem makeFileUriFromPath_eq {path : Bytes} (hback : 92 ∉ 47 :: path) :
    makeFileUriFromPath (47 :: path) =
      bytesOf "file://" ++
        if path.head? = some 47 then percentEncodeFilePath path.tail else percentEncodeFilePath (47 :: path) := by
  have hnot : isWindowsDrivePath (47 :: path) = false := by
    cases path with
    | nil => rfl
    | cons b path => simp [isWindowsDrivePath, isDriveLetter]
  have habs : isAbsoluteFilePath (47 :: path) = true := rfl
  rw [makeFileUriFromPath, normalizePathSeparators_eq hback]
  simp only [habs, if_true, hnot, Bool.false_eq_true, if_false]
  have hcons : ∀ path', percentEncodeFilePath (47 :: path') = 47 :: percentEncodeFilePath path' := fun _ => rfl
  by_cases hhead : path.head? = some 47
  · obtain ⟨path, rfl⟩ : ∃ path', path = 47 :: path' := by
      cases path with
      | nil => cases hhead
      | cons b path => exact ⟨path, congrArg (· :: path) (Option.some.inj hhead)⟩
    rw [if_pos hhead, hcons, hcons, if_pos (by simp)]
    rfl
  · rw [if_neg hhead, if_neg]
    cases path with
    | nil => decide
    | cons b path =>
        have hb : b ≠ 47 := fun heq => hhead (heq ▸ rfl)
        rw [hcons, percentEncodeFilePath, List.flatMap_cons]
        cases henc : percentEncodeByte b with
        | nil =>
            rw [percentEncodeByte] at henc
            split_ifs at henc
        | cons b' rest =>
            have hb' := (mem_percentEncodeByte (b := b') (c := b) (by rw [henc]; exact List.mem_cons_self ..)).2.2 hb
            simp [hb']

theorem startsWithFileScheme_append (rest : Bytes) : startsWithFileScheme (bytesOf "file://" ++ rest) = true := by
  have hlen : 7 ≤ (bytesOf "file://" ++ rest).length := by
    rw [List.length_append]
    exact Nat.le_add_right 7 _
  rw [startsWithFileScheme, decide_eq_true hlen]
  rfl

/-- A URI without an authority. -/
theorem rawPath_of_noAuthority (path : Bytes) :
    rawPathFromFileUri (bytesOf "file://" ++ percentEncodeFilePath (47 :: path)) = 47 :: path := by
  have hdrop : (bytesOf "file://" ++ percentEncodeFilePath (47 :: path)).drop 7 =
      47 :: percentEncodeFilePath path := rfl
  have hstrip := stripUriPathSuffix_percentEncode (47 :: path)
  have hdecode := percentDecode_percentEncode (47 :: path)
  change stripUriPathSuffix (47 :: percentEncodeFilePath path) = _ at hstrip
  rw [rawPathFromFileUri, startsWithFileScheme_append, hdrop]
  simpa [isDelimiter, hstrip] using hdecode

/-- A URI whose authority is a host, with a path that is empty or begins with a slash. -/
theorem rawPath_of_host {host tail : Bytes} (hne : host ≠ []) (hhost : 47 ∉ host)
    (htail : tail = [] ∨ tail.head? = some 47) :
    rawPathFromFileUri (bytesOf "file://" ++ percentEncodeFilePath (host ++ tail)) =
      if isLocalhostAuthority host then tail else 47 :: 47 :: (host ++ tail) := by
  have happend : ∀ a b, percentEncodeFilePath (a ++ b) = percentEncodeFilePath a ++ percentEncodeFilePath b :=
    fun _ _ => List.flatMap_append
  have hdrop : (bytesOf "file://" ++ percentEncodeFilePath (host ++ tail)).drop 7 =
      percentEncodeFilePath host ++ percentEncodeFilePath tail := happend host tail
  have hauthority := isDelimiter_percentEncode hhost
  have hpath : (percentEncodeFilePath tail).takeWhile (!isDelimiter ·) = [] ∧
      (percentEncodeFilePath tail).dropWhile (!isDelimiter ·) = percentEncodeFilePath tail ∧
      (if (percentEncodeFilePath tail).head? = some 47 then stripUriPathSuffix (percentEncodeFilePath tail) else []) =
        percentEncodeFilePath tail := by
    rcases htail with rfl | htail
    · exact ⟨rfl, rfl, rfl⟩
    · obtain ⟨tail, rfl⟩ : ∃ tail', tail = 47 :: tail' := by
        cases tail with
        | nil => cases htail
        | cons b tail => exact ⟨tail, congrArg (· :: tail) (Option.some.inj htail)⟩
      exact ⟨rfl, rfl, stripUriPathSuffix_percentEncode _⟩
  have hencoded : percentEncodeFilePath host ≠ [] := by
    intro hnil
    have hdecode := percentDecode_percentEncode host
    rw [hnil] at hdecode
    exact hne hdecode.symm
  rw [rawPathFromFileUri, startsWithFileScheme_append, hdrop, List.takeWhile_append_of_pos hauthority,
    List.dropWhile_append_of_pos hauthority, hpath.1, hpath.2.1, List.append_nil]
  simp only [hpath.2.2, Bool.not_true, Bool.false_eq_true, if_false]
  rw [isLocalhostAuthority_percentEncode]
  cases hlocal : isLocalhostAuthority host with
  | true =>
      rw [if_neg (by simp), if_pos rfl]
      exact percentDecode_percentEncode tail
  | false =>
      have hwhole : [47, 47] ++ percentEncodeFilePath host ++ percentEncodeFilePath tail =
          percentEncodeFilePath (47 :: 47 :: (host ++ tail)) := by
        rw [List.append_assoc, ← happend]
        rfl
      rw [if_pos ⟨hencoded, rfl⟩, if_neg (by simp), hwhole]
      exact percentDecode_percentEncode _

/-- The path begins with two slashes and the name of the local machine. -/
def HasLocalhostRoot (path : Bytes) : Prop :=
  path.take 2 = [47, 47] ∧ isLocalhostAuthority ((path.drop 2).takeWhile (· != 47)) = true

instance (path : Bytes) : Decidable (HasLocalhostRoot path) := inferInstanceAs (Decidable (_ ∧ _))

/-- The working directory is a normalised path, where there is one. -/
def Posix.CwdResolved (posix : Posix) : Prop :=
  posix.getcwd = [] ∨ ∃ root components, IsRoot root ∧ (∀ c ∈ components, IsComponent (· ≠ 92) c) ∧
    posix.getcwd = renderPath root components

/-- A normalised path as its first byte and the rest, in which two slashes are followed by a host. -/
theorem renderPath_cases {P : UInt8 → Prop} {root : Bytes} (hroot : IsRoot root) {components : List Bytes}
    (hcomponents : ∀ c ∈ components, IsComponent P c) :
    (∃ path, renderPath root components = 47 :: path ∧ path.head? ≠ some 47) ∨
      ∃ host tail, renderPath root components = 47 :: 47 :: (host ++ tail) ∧ host ≠ [] ∧ 47 ∉ host ∧
        (tail = [] ∨ tail.head? = some 47) := by
  cases components with
  | nil => exact .inl ⟨[], rfl, by simp⟩
  | cons c rest =>
      have hc := hcomponents c (List.mem_cons_self ..)
      obtain ⟨tail, htail, hhead⟩ : ∃ tail, ((c :: rest).flatMap fun c => c ++ [47]).dropLast = c ++ tail ∧
          (tail = [] ∨ tail.head? = some 47) := by
        cases rest with
        | nil => exact ⟨[], by simp, .inl rfl⟩
        | cons c' rest =>
            have hrest : ((c' :: rest).flatMap fun c => c ++ [47]) ≠ [] := by simp
            refine ⟨47 :: ((c' :: rest).flatMap fun c => c ++ [47]).dropLast, ?_, .inr rfl⟩
            rw [List.flatMap_cons, List.dropLast_append_of_ne_nil hrest, List.append_assoc]
            rfl
      have hflat : ((c :: rest).flatMap fun c => c ++ [47]) ≠ [] := by simp
      rw [renderPath, if_neg (List.cons_ne_nil _ _), joinSlashes, List.dropLast_append_of_ne_nil hflat, htail]
      rcases hroot with rfl | rfl
      · refine .inl ⟨c ++ tail, rfl, ?_⟩
        obtain ⟨b, c, rfl⟩ := List.exists_cons_of_ne_nil hc.ne_nil
        exact fun heq => hc.no_slash (Option.some.inj heq ▸ List.mem_cons_self ..)
      · exact .inr ⟨c, tail, rfl, hc.ne_nil, hc.no_slash, hhead⟩

/-- A normalised path that is made a URI is read back, except below the local machine. -/
theorem rawPath_makeFileUri {path : Bytes} (hback : 92 ∉ path)
    (hcases : (∃ rest, path = 47 :: rest ∧ rest.head? ≠ some 47) ∨
      ∃ host tail, path = 47 :: 47 :: (host ++ tail) ∧ host ≠ [] ∧ 47 ∉ host ∧
        (tail = [] ∨ tail.head? = some 47)) :
    startsWithFileScheme (makeFileUriFromPath path) = true ∧
      (rawPathFromFileUri (makeFileUriFromPath path) = path ↔ ¬HasLocalhostRoot path) := by
  rcases hcases with ⟨rest, rfl, hrest⟩ | ⟨host, tail, rfl, hne, hslash, htail⟩
  · have hroot : ¬HasLocalhostRoot (47 :: rest) := by
      rintro ⟨htwo, _⟩
      cases rest with
      | nil => cases htwo
      | cons b rest =>
          obtain ⟨_, hb⟩ := List.cons_eq_cons.mp htwo
          exact hrest (congrArg some (List.head_eq_of_cons_eq hb))
    rw [makeFileUriFromPath_eq hback, if_neg hrest]
    exact ⟨startsWithFileScheme_append _, iff_of_true (rawPath_of_noAuthority rest) hroot⟩
  · have hhost : ((47 :: 47 :: (host ++ tail)).drop 2).takeWhile (· != 47) = host := by
      have hall : ∀ b ∈ host, (b != 47) = true := by
        intro b hb
        rw [bne_iff_ne]
        rintro rfl
        exact hslash hb
      have hstop : tail.takeWhile (· != 47) = [] := by
        rcases htail with rfl | htail
        · rfl
        · cases tail with
          | nil => rfl
          | cons b tail =>
              rw [Option.some.inj htail]
              rfl
      change (host ++ tail).takeWhile (· != 47) = host
      rw [List.takeWhile_append_of_pos hall, hstop, List.append_nil]
    rw [makeFileUriFromPath_eq hback]
    simp only [List.head?_cons, if_true, List.tail_cons]
    refine ⟨startsWithFileScheme_append _, ?_⟩
    rw [rawPath_of_host hne hslash htail, HasLocalhostRoot, hhost]
    split_ifs with hlocal
    · refine iff_of_false (fun heq => ?_) fun h => h ⟨rfl, hlocal⟩
      have hlen := congrArg List.length heq
      simp only [List.length_cons, List.length_append] at hlen
      omega
    · exact iff_of_true rfl fun h => hlocal h.2

theorem not_mem_renderPath {root : Bytes} (hroot : IsRoot root) {components : List Bytes}
    (hcomponents : ∀ c ∈ components, IsComponent (· ≠ 92) c) : 92 ∉ renderPath root components := by
  rw [renderPath]
  split_ifs
  · decide
  · intro hmem
    rcases List.mem_append.mp (List.mem_of_mem_dropLast hmem) with hmem | hmem
    · rcases hroot with rfl | rfl <;> exact absurd hmem (by decide)
    · obtain ⟨c, hc, hmem⟩ := List.mem_flatMap.mp hmem
      rcases List.mem_append.mp hmem with hmem | hmem
      · exact (hcomponents c hc).bytes 92 hmem rfl
      · exact absurd hmem (by decide)

/-- What normalisation makes of an absolute path: one with a drive letter is taken from the working directory. -/
theorem normalizePath_of_absolute (posix : Posix) (hcwd : posix.CwdResolved) {q : Bytes}
    (habs : isAbsolutePath q = true) (hback : 92 ∉ q) :
    (posix.normalizePath false q).path = [] ∨
      ∃ root components, IsRoot root ∧ (∀ c ∈ components, IsComponent (· ≠ 92) c) ∧
        (posix.normalizePath false q).path = renderPath root components := by
  have hbytes : ∀ b ∈ q, b ≠ 92 := fun b hb heq => hback (heq ▸ hb)
  by_cases hslash : q.head? = some 47
  · obtain ⟨root, components, hroot, hcomponents, hpath, -⟩ := posix.normalizePath_of_slash hslash hbytes
    exact .inr ⟨root, components, hroot, hcomponents, hpath⟩
  have hletter : ∃ a rest, q = a :: rest ∧ isDriveLetter a = true := by
    rw [isAbsolutePath, isUnixAbsolutePath, decide_eq_false hslash, Bool.false_or] at habs
    rcases q with _ | ⟨a, _ | ⟨b, _ | ⟨c, rest⟩⟩⟩
    · cases habs
    · cases habs
    · cases habs
    · refine ⟨a, b :: c :: rest, rfl, ?_⟩
      have ha : isSlash a = false := by
        have hne : a ≠ 92 := hbytes a (List.mem_cons_self ..)
        have hne' : a ≠ 47 := fun heq => hslash (congrArg some heq)
        simp [isSlash, hne, hne']
      simp only [isWindowsAbsolutePath, ha, Bool.and_false, Bool.false_and, Bool.or_false,
        Bool.and_eq_true] at habs
      exact habs.2
  obtain ⟨a, rest, rfl, ha⟩ := hletter
  have hnul : (a :: rest).head? ≠ some 0 := fun heq => by
    rw [Option.some.inj heq] at ha
    exact absurd ha (by decide)
  have hroot : posix.resolveRoot (a :: rest) = (posix.getcwd, a :: rest) := by
    have htwo : ¬((a :: rest).take 2 = [47, 47] ∧ (a :: rest)[2]? ≠ some 47) := by
      rintro ⟨htwo, _⟩
      exact hslash (congrArg some (List.head_eq_of_cons_eq htwo))
    rw [Posix.resolveRoot, if_neg htwo, if_neg hslash]
  rcases hcwd with hnone | ⟨root, components, hisRoot, hcomponents, hcwd⟩
  · left
    have hstart : ¬(a :: rest = [] ∨ (a :: rest).head? = some 0) := fun h => h.elim (by simp) hnul
    rw [Posix.normalizePath, Posix.realPathNotExpandSymlink, if_neg hstart, hroot]
    simp only [hnone, if_true]
  · right
    rw [hcwd] at hroot
    obtain ⟨root', hresolves⟩ := Resolves.of_renderPath hisRoot hcomponents
    obtain ⟨root'', components', hroot', hcomponents', -, -, hpath⟩ :=
      posix.normalizePath_of_resolves (List.cons_ne_nil _ _) hnul hroot hresolves hbytes
    exact ⟨root'', components', hroot', hcomponents', hpath⟩

/-- **File URI round trip**: the path of every absolute path is read back from its URI, both raw and normalised,
exactly when it does not begin with two slashes and the name of the local machine. -/
theorem fileUri_roundTrip_iff (posix : Posix) (hcwd : posix.CwdResolved) (q : Bytes)
    (habs : isAbsolutePath q = true) (hback : 92 ∉ q) :
    let p := (posix.normalizePath false q).path
    let u := LsDocumentUri.fromPath (AbsolutePath.fromNormalized p)
    (u.getRawPath = p ∧ (u.getAbsolutePath posix).path = p) ↔ ¬HasLocalhostRoot p := by
  intro p u
  rcases normalizePath_of_absolute posix hcwd habs hback with hp | ⟨root, components, hroot, hcomponents, hp⟩
  · have hp' : p = [] := hp
    have hu : u = {} := by
      change LsDocumentUri.fromPath (AbsolutePath.fromNormalized p) = {}
      rw [hp']
      rfl
    rw [hu, hp']
    exact iff_of_true ⟨rfl, rfl⟩ (by decide)
  · have hp' : p = renderPath root components := hp
    have hpath : AbsolutePath.fromNormalized p = ⟨p⟩ := by
      rw [AbsolutePath.fromNormalized, if_pos]
      rw [hp']
      exact Posix.isAbsolutePath_renderPath hroot components
    have hvalid : AbsolutePath.valid ⟨p⟩ = true := by
      rw [AbsolutePath.valid, hp']
      exact Posix.isAbsolutePath_renderPath hroot components
    have hu : u.rawUri = makeFileUriFromPath p := by
      change (LsDocumentUri.fromPath (AbsolutePath.fromNormalized p)).rawUri = _
      rw [hpath, LsDocumentUri.fromPath, if_pos hvalid]
    obtain ⟨hscheme, hraw⟩ := rawPath_makeFileUri (hp' ▸ not_mem_renderPath hroot hcomponents)
      (hp' ▸ renderPath_cases hroot hcomponents)
    rw [LsDocumentUri.getAbsolutePath, LsDocumentUri.getRawPath, hu, hscheme, if_pos rfl, ← hraw]
    refine ⟨fun h => h.1, fun h => ⟨h, ?_⟩⟩
    rw [h, hp']
    exact posix.normalizePath_renderPath hroot hcomponents

/-- A share with escaped bytes in its path. -/
theorem fileUri_roundTrip_share :
    let posix : Posix := { getcwd := bytesOf "/home" }
    let q := bytesOf "//server/a b/../50%?#.txt"
    (isAbsolutePath q = true ∧ 92 ∉ q ∧ (posix.normalizePath false q).path = bytesOf "//server/50%?#.txt") ∧
      ((LsDocumentUri.fromPath (AbsolutePath.fromNormalized (posix.normalizePath false q).path)).getRawPath =
          (posix.normalizePath false q).path ∧
        ((LsDocumentUri.fromPath (AbsolutePath.fromNormalized (posix.normalizePath false q).path)).getAbsolutePath
            posix).path = (posix.normalizePath false q).path) := by
  intro posix q
  refine ⟨by decide, (fileUri_roundTrip_iff posix ?_ q (by decide) (by decide)).mpr (by decide)⟩
  refine .inr ⟨[47], [bytesOf "home"], .inl rfl, ?_, by decide⟩
  intro c hc
  rw [List.mem_singleton.mp hc]
  exact ⟨by decide, by decide, by decide, by decide, fun b hb => ne_of_mem_of_not_mem hb (by decide)⟩

/-- The share of the local machine is read back as a path of the file system. -/
theorem fileUri_roundTrip_localhost :
    let posix : Posix := { getcwd := bytesOf "/home" }
    let p := (posix.normalizePath false (bytesOf "//localhost/share/a.txt")).path
    let u := LsDocumentUri.fromPath (AbsolutePath.fromNormalized p)
    p = bytesOf "//localhost/share/a.txt" ∧ u.getRawPath = bytesOf "/share/a.txt" ∧
      (u.getAbsolutePath posix).path = bytesOf "/share/a.txt" ∧
      ¬(u.getRawPath = p ∧ (u.getAbsolutePath posix).path = p) := by
  decide

end LspCpp
