import LspCpp.UriCanonical
import LspCpp.UriRoundTrip

/-! The opt-in URIs with their percent codecs. The three encoders differ in the bytes that stand for themselves, the
two decoders in what they make of a byte outside an escape; each decoder reads each encoder back. -/

namespace LspCpp

/-- `isalnum` of the "C" locale. -/
def isAlnum (c : UInt8) : Bool := isDigit c || (65 ≤ c && c ≤ 90) || (97 ≤ c && c ≤ 122)

def isUnreserved (c : UInt8) : Bool := isAlnum c || c == 45 || c == 95 || c == 46 || c == 126

def isTestPathSafe (c : UInt8) : Bool := isUnreserved c || c == 47 || c == 58

/-- The loop of the encoders: a byte that is not safe becomes an escape. -/
def percentEncodeUnless (safe : UInt8 → Bool) (value : Bytes) : Bytes :=
  value.flatMap fun c => if safe c then [c] else [37, hexDigit (c >>> 4), hexDigit (c &&& 15)]

def percentEncodeTestPath (value : Bytes) : Bytes := percentEncodeUnless isTestPathSafe value

def percentEncodeUriComponent (value : Bytes) : Bytes := percentEncodeUnless isUnreserved value

/-- The lambda `hex` of `percent_decode_uri_component`; nothing stands for -1. -/
def uriHex (c : UInt8) : Option UInt8 :=
  if 48 ≤ c && c ≤ 57 then some (c - 48)
  else if 65 ≤ c && c ≤ 70 then some (c - 65 + 10)
  else if 97 ≤ c && c ≤ 102 then some (c - 97 + 10)
  else none

def percentDecodeUriComponent : Bytes → Bytes
  | [] => []
  | [c] => [c]
  | [c, a] => [c, a]
  | c :: a :: b :: rest =>
      if c == 37 then
        match uriHex a, uriHex b with
        | some hi, some lo => (hi <<< 4 ||| lo) :: percentDecodeUriComponent rest
        | _, _ => c :: percentDecodeUriComponent (a :: b :: rest)
      else c :: percentDecodeUriComponent (a :: b :: rest)

/-- `NormalizeTestPath`: slashes instead of backslashes, and none at the beginning. -/
def normalizeTestPath (path : Bytes) : Bytes := (normalizePathSeparators path).dropWhile (· == 47)

/-- The constructor of `AbsolutePath` from a text. -/
def AbsolutePath.ofPath (posix : Posix) (path : Bytes) : AbsolutePath :=
  if isAbsolutePath path then posix.normalizePath false path else {}

/-- `lsp::Uri`. -/
structure Uri where
  raw : Bytes := []
  deriving DecidableEq, Repr

namespace Uri

def fromRaw (uri : Bytes) : Uri := ⟨uri⟩

def fromTestPath (path : Bytes) : Uri := ⟨bytesOf "test:///" ++ percentEncodeTestPath (normalizeTestPath path)⟩

def scheme (uri : Uri) : Bytes :=
  match Search.find [58] uri.raw with
  | none => []
  | some pos => uri.raw.take pos

def body (uri : Uri) : Bytes :=
  match Search.find (bytesOf "://") uri.raw with
  | none => uri.raw
  | some pos => uri.raw.drop (pos + 3)

def toAbsolutePath (posix : Posix) (uri : Uri) : AbsolutePath :=
  if uri.scheme = bytesOf "file" then (LsDocumentUri.mk uri.raw).getAbsolutePath posix
  else if uri.scheme = bytesOf "test" then
    let path := percentDecodeUriComponent uri.body
    AbsolutePath.ofPath posix (if path.head? = some 47 then path else 47 :: path)
  else {}

def isTestScheme (uri : Uri) : Bool := uri.scheme == bytesOf "test"

end Uri

theorem shiftRight_four (c : UInt8) : c >>> 4 = c / 16 := by
  apply UInt8.toNat_inj.mp
  rw [UInt8.toNat_shiftRight, UInt8.toNat_div, Nat.shiftRight_eq_div_pow]
  rfl

theorem and_fifteen (c : UInt8) : c &&& 15 = c % 16 := by
  apply UInt8.toNat_inj.mp
  rw [UInt8.toNat_and, UInt8.toNat_mod]
  exact Nat.and_two_pow_sub_one_eq_mod c.toNat 4

/-- The two halves of a byte put together. -/
theorem shiftLeft_or_halves (c : UInt8) : (c / 16) <<< 4 ||| c % 16 = c := by
  have hlow : c.toNat % 16 < 2 ^ 4 := Nat.mod_lt _ (by decide)
  have hsmall : c.toNat / 16 * 16 % 256 = c.toNat / 16 * 16 := by
    have := c.toNat_lt
    omega
  apply UInt8.toNat_inj.mp
  rw [UInt8.toNat_or, UInt8.toNat_shiftLeft, UInt8.toNat_div, UInt8.toNat_mod]
  change (c.toNat / 16) <<< 4 % 256 ||| c.toNat % 16 = c.toNat
  have hshift : (c.toNat / 16) <<< 4 % 256 = (c.toNat / 16) <<< 4 := by
    rw [Nat.shiftLeft_eq]
    exact hsmall
  rw [hshift, ← Nat.shiftLeft_add_eq_or_of_lt hlow, Nat.shiftLeft_eq]
  omega

theorem uriHex_hexDigit (n : UInt8) (hn : n < 16) : uriHex (hexDigit n) = some n := by
  have hall : ∀ k < 16, uriHex (hexDigit (UInt8.ofNat k)) = some (UInt8.ofNat k) := by decide
  have h := hall n.toNat (UInt8.lt_iff_toNat_lt.mp hn)
  rwa [UInt8.ofNat_toNat] at h

theorem percentDecodeUriComponent_cons {c : UInt8} (hc : c ≠ 37) (rest : Bytes) :
    percentDecodeUriComponent (c :: rest) = c :: percentDecodeUriComponent rest := by
  match rest with
  | [] => rfl
  | [_] => rfl
  | a :: b :: rest => simp [percentDecodeUriComponent, hc]

/-- The escape of every byte, also at the end of the text. -/
theorem percentDecodeUriComponent_escape (c : UInt8) (rest : Bytes) :
    percentDecodeUriComponent ([37, hexDigit (c / 16), hexDigit (c % 16)] ++ rest) =
      c :: percentDecodeUriComponent rest := by
  have hhigh := uriHex_hexDigit _ (highDigit_lt c)
  have hlow := uriHex_hexDigit _ (lowDigit_lt c)
  simp [percentDecodeUriComponent, hhigh, hlow, shiftLeft_or_halves]

/-- A decoder that leaves safe bytes alone and reads one escape reads back what an encoder writes. -/
theorem decode_percentEncodeUnless {safe : UInt8 → Bool} {decode : Bytes → Bytes} (hnil : decode [] = [])
    (hsafe : ∀ c rest, safe c = true → decode (c :: rest) = c :: decode rest)
    (hescape : ∀ c rest, decode ([37, hexDigit (c / 16), hexDigit (c % 16)] ++ rest) = c :: decode rest)
    (value : Bytes) : decode (percentEncodeUnless safe value) = value := by
  induction value with
  | nil => exact hnil
  | cons c value ih =>
      change decode ((if safe c = true then [c] else _) ++ percentEncodeUnless safe value) = c :: value
      split_ifs with hc
      · rw [List.singleton_append, hsafe c _ hc, ih]
      · rw [shiftRight_four, and_fifteen, hescape, ih]

theorem isTestPathSafe_of_isUnreserved {c : UInt8} (h : isUnreserved c = true) : isTestPathSafe c = true := by
  rw [isTestPathSafe, h]
  rfl

theorem ne_percent_of_isTestPathSafe {c : UInt8} (h : isTestPathSafe c = true) : c ≠ 37 := by
  rintro rfl
  exact absurd h (by decide)

theorem percentDecode_percentEncodeUriComponent (value : Bytes) :
    percentDecodeUriComponent (percentEncodeUriComponent value) = value := by
  refine decode_percentEncodeUnless rfl (fun c rest hc => ?_) percentDecodeUriComponent_escape value
  exact percentDecodeUriComponent_cons (ne_percent_of_isTestPathSafe (isTestPathSafe_of_isUnreserved hc)) rest

theorem percentDecode_percentEncodeTestPath (value : Bytes) :
    percentDecodeUriComponent (percentEncodeTestPath value) = value := by
  refine decode_percentEncodeUnless rfl (fun c rest hc => ?_) percentDecodeUriComponent_escape value
  exact percentDecodeUriComponent_cons (ne_percent_of_isTestPathSafe hc) rest

/-- A normalised relative path; the empty one has no component. -/
structure IsRelativePath (path : Bytes) : Prop where
  no_slash : path.head? ≠ some 47
  no_backslash : 92 ∉ path
  proper : path ≠ [] → ∀ c ∈ path.splitOn 47, c ≠ [] ∧ c ≠ bytesOf "." ∧ c ≠ bytesOf ".."

theorem IsRelativePath.normalizeTestPath_eq {path : Bytes} (h : IsRelativePath path) :
    normalizeTestPath path = path := by
  rw [normalizeTestPath, normalizePathSeparators_eq h.no_backslash]
  cases path with
  | nil => rfl
  | cons b path =>
      have hb : (b == 47) = false := beq_eq_false_iff_ne.mpr fun heq => h.no_slash (congrArg some heq)
      exact List.dropWhile_cons_of_neg (by simp [hb])

/-- Behind a slash it is in normal form. -/
theorem IsRelativePath.normalizePath_eq {path : Bytes} (h : IsRelativePath path) (posix : Posix) :
    (posix.normalizePath false (47 :: path)).path = 47 :: path := by
  by_cases hnil : path = []
  · rw [hnil]
    rfl
  · have hcomponents : ∀ c ∈ path.splitOn 47, IsComponent (fun _ => True) c := by
      intro c hc
      obtain ⟨hne, hdot, hdots⟩ := h.proper hnil c hc
      exact ⟨hne, hdot, hdots, Search.not_mem_of_mem_splitOn hc, fun _ _ => trivial⟩
    have hrender : renderPath [47] (path.splitOn 47) = 47 :: path := by
      rw [renderPath_eq_intercalate [47] (List.splitOn_ne_nil _ _), List.intercalate_splitOn]
      rfl
    rw [← hrender]
    exact posix.normalizePath_renderPath (.inl rfl) hcomponents

namespace Uri

theorem scheme_test (rest : Bytes) : (Uri.mk (bytesOf "test:///" ++ rest)).scheme = bytesOf "test" := by
  have hfind : Search.find [58] (bytesOf "test:///" ++ rest) = some 4 :=
    Search.find_append (show Search.find [58] (bytesOf "test:///") = some 4 by decide) rest
  rw [scheme, hfind]
  rfl

theorem body_test (rest : Bytes) : (Uri.mk (bytesOf "test:///" ++ rest)).body = 47 :: rest := by
  have hfind : Search.find (bytesOf "://") (bytesOf "test:///" ++ rest) = some 4 :=
    Search.find_append (show Search.find (bytesOf "://") (bytesOf "test:///") = some 4 by decide) rest
  rw [body, hfind]
  rfl

/-- The path of a test URI is that of the text from which it was made. -/
theorem toAbsolutePath_fromTestPath (posix : Posix) (path : Bytes) :
    (fromTestPath path).toAbsolutePath posix = posix.normalizePath false (47 :: normalizeTestPath path) := by
  have hdecode : percentDecodeUriComponent (47 :: percentEncodeTestPath (normalizeTestPath path)) =
      47 :: normalizeTestPath path := by
    rw [percentDecodeUriComponent_cons (by decide), percentDecode_percentEncodeTestPath]
  have hnot : ¬bytesOf "test" = bytesOf "file" := by decide
  rw [toAbsolutePath, fromTestPath, scheme_test, body_test, if_neg hnot, if_pos rfl, hdecode]
  rfl

end Uri

/-- **The percent codecs are inverse** on all texts, and a normalised relative path comes back from its test URI
behind a slash. -/
theorem percentCodecs_inverse (posix : Posix) :
    (∀ s, percentDecodeUriComponent (percentEncodeUriComponent s) = s) ∧
      (∀ s, percentDecodeUriComponent (percentEncodeTestPath s) = s) ∧
      (∀ s, percentDecodeFilePath (percentEncodeFilePath s) = s) ∧
      ∀ p, IsRelativePath p → ((Uri.fromTestPath p).toAbsolutePath posix).path = 47 :: p := by
  refine ⟨percentDecode_percentEncodeUriComponent, percentDecode_percentEncodeTestPath,
    percentDecode_percentEncode, fun p hp => ?_⟩
  rw [Uri.toAbsolutePath_fromTestPath, hp.normalizeTestPath_eq]
  exact hp.normalizePath_eq posix

/-- A path with a blank, a number sign and a percent sign. -/
def blankPath : Bytes := bytesOf "foo dir/bar#%41?.cpp"

theorem isRelativePath_blankPath : IsRelativePath blankPath where
  no_slash := by decide
  no_backslash := by decide
  proper := fun _ => by
    have hall : (blankPath.splitOn 47).all (fun c => c != [] && c != bytesOf "." && c != bytesOf "..") = true := by
      decide
    intro c hc
    have := List.all_eq_true.mp hall c hc
    simpa [and_assoc] using this

theorem percentCodecs_inverse_blankPath :
    ((Uri.fromTestPath blankPath).toAbsolutePath {}).path = bytesOf "/foo dir/bar#%41?.cpp" :=
  (percentCodecs_inverse {}).2.2.2 blankPath isRelativePath_blankPath

end LspCpp
