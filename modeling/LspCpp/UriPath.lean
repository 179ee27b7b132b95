import LspCpp.WorkingFiles

/-! Paths and file URIs in the POSIX build: how a path is normalised, how it becomes a URI, and how a URI is read
back. -/

namespace LspCpp

/-- What the operating system tells of paths: the working directory, nothing where `getcwd` fails, and for the path
of a file whether it is a directory. -/
structure Posix where
  getcwd : Bytes := [47]
  stat : Bytes → Option Bool := fun _ => none

/-- `resolved += '/'` where it does not end in one. -/
def closeSlash (resolved : Bytes) : Bytes := if resolved.getLast? = some 47 then resolved else resolved ++ [47]

/-- `resolved.resize(resolved.rfind('/', resolved.size() - 2) + 1)`. -/
def stripLast (resolved : Bytes) : Bytes := resolved.dropLast.rdropWhile (· != 47)

namespace Posix

variable (posix : Posix) (ensureExists : Bool)

/-- The loop of `RealPathNotExpandSymlink` with one token; `more` tells that the path goes on behind it. -/
def appendToken (resolved nextToken : Bytes) (more : Bool) : Option Bytes :=
  let resolved := closeSlash resolved
  if nextToken = [] ∨ nextToken = bytesOf "." then some resolved
  else if nextToken = bytesOf ".." then some (if 1 < resolved.length then stripLast resolved else resolved)
  else
    let resolved := resolved ++ nextToken
    match posix.stat resolved with
    | none => if ensureExists then none else some resolved
    | some isDirectory => if ensureExists && !isDirectory && more then none else some resolved

/-- The loop over the rest of a path, of which `nextToken` has been read. -/
def appendTokens : (path nextToken resolved : Bytes) → Option Bytes
  | [], nextToken, resolved =>
      if nextToken = [] then some resolved else appendToken posix ensureExists resolved nextToken false
  | c :: path, nextToken, resolved =>
      if c = 47 then
        (appendToken posix ensureExists resolved nextToken true).bind (appendTokens path [])
      else appendTokens path (nextToken ++ [c]) resolved

/-- Where the path begins to be resolved: the root or the working directory, and what remains of the path. -/
def resolveRoot (path : Bytes) : Bytes × Bytes :=
  if path.take 2 = [47, 47] ∧ path[2]? ≠ some 47 then ([47, 47], path.drop 2)
  else if path.head? = some 47 then ([47], path.drop 1)
  else (posix.getcwd, path)

def realPathNotExpandSymlink (path : Bytes) : AbsolutePath :=
  if path = [] ∨ path.head? = some 0 then {}
  else
    let (root, rest) := resolveRoot posix path
    if root = [] then {}
    else
      match appendTokens posix ensureExists rest [] root with
      | none => {}
      | some resolved =>
          AbsolutePath.fromNormalized
            (if 1 < resolved.length ∧ resolved.getLast? = some 47 then resolved.dropLast else resolved)

/-- `NormalizePath`. -/
def normalizePath (path : Bytes) : AbsolutePath := realPathNotExpandSymlink posix ensureExists path

end Posix

def isWindowsDrivePath : Bytes → Bool
  | a :: b :: _ => b == 58 && isDriveLetter a
  | _ => false

def toLowerAscii (c : UInt8) : UInt8 := if 65 ≤ c && c ≤ 90 then c - 65 + 97 else c

def startsWithFileScheme (uri : Bytes) : Bool :=
  7 ≤ uri.length && (uri.take 4).map toLowerAscii == bytesOf "file" && (uri.drop 4).take 3 == bytesOf "://"

def isLocalhostAuthority (authority : Bytes) : Bool :=
  authority.length == 9 && authority.map toLowerAscii == bytesOf "localhost"

def isHex (c : UInt8) : Bool := (48 ≤ c && c ≤ 57) || (97 ≤ c && c ≤ 102) || (65 ≤ c && c ≤ 70)

def hexValue (c : UInt8) : UInt8 :=
  if 48 ≤ c && c ≤ 57 then c - 48 else if 97 ≤ c && c ≤ 102 then c - 97 + 10 else c - 65 + 10

/-- `hex[n]` in `PercentEncodeFilePath`. -/
def hexDigit (n : UInt8) : UInt8 := if n < 10 then 48 + n else 55 + n

def isUnreservedUriPathByte (c : UInt8) : Bool :=
  (97 ≤ c && c ≤ 122) || (65 ≤ c && c ≤ 90) || (48 ≤ c && c ≤ 57) || c == 45 || c == 46 || c == 95 || c == 126

def normalizePathSeparators (path : Bytes) : Bytes := path.map fun c => if c = 92 then 47 else c

def isAbsoluteFilePath (path : Bytes) : Bool := path.head? == some 47 || isWindowsDrivePath path

/-- `StripUriPathSuffix`: the path before a query or a fragment. -/
def stripUriPathSuffix (path : Bytes) : Bytes := path.takeWhile fun c => c != 63 && c != 35

def percentEncodeByte (c : UInt8) : Bytes :=
  if c == 47 || isUnreservedUriPathByte c then [c] else [37, hexDigit (c / 16), hexDigit (c % 16)]

def percentEncodeFilePath (path : Bytes) : Bytes := path.flatMap percentEncodeByte

/-- What `PercentDecodeFilePath` makes of a byte that is not part of an escape. -/
def plainByte (c : UInt8) : UInt8 := if c = 92 then 47 else c

def percentDecodeFilePath : Bytes → Bytes
  | [] => []
  | [c] => [plainByte c]
  | [c, a] => [plainByte c, plainByte a]
  | c :: a :: b :: rest =>
      if c == 37 && isHex a && isHex b then (hexValue a * 16 + hexValue b) :: percentDecodeFilePath rest
      else plainByte c :: percentDecodeFilePath (a :: b :: rest)

def makeFileUriFromPath (path : Bytes) : Bytes :=
  let path := normalizePathSeparators path
  let path := if isAbsoluteFilePath path then path else 47 :: path
  let encodedPath := percentEncodeFilePath path
  if isWindowsDrivePath path then bytesOf "file:///" ++ encodedPath
  else if encodedPath.take 2 = [47, 47] then bytesOf "file:" ++ encodedPath
  else bytesOf "file://" ++ encodedPath

/-- The authority of a URI ends at the first of these. -/
def isDelimiter (c : UInt8) : Bool := c == 47 || c == 63 || c == 35

/-- `RawPathFromFileUri`; the authority `localhost` is the local machine. -/
def rawPathFromFileUri (uri : Bytes) : Bytes :=
  if !startsWithFileScheme uri then uri
  else
    let authority := (uri.drop 7).takeWhile (!isDelimiter ·)
    let rest := (uri.drop 7).dropWhile (!isDelimiter ·)
    let path := if rest.head? = some 47 then stripUriPathSuffix rest else []
    if authority ≠ [] ∧ !isLocalhostAuthority authority then
      percentDecodeFilePath ([47, 47] ++ authority ++ path)
    else percentDecodeFilePath path

structure LsDocumentUri where
  rawUri : Bytes := []
  deriving DecidableEq, Repr

namespace LsDocumentUri

/-- `lsDocumentUri::FromPath` by `SetPath`. -/
def fromPath (path : AbsolutePath) : LsDocumentUri := ⟨if path.valid then makeFileUriFromPath path.path else []⟩

def getRawPath (uri : LsDocumentUri) : Bytes := rawPathFromFileUri uri.rawUri

def getAbsolutePath (posix : Posix) (uri : LsDocumentUri) : AbsolutePath :=
  if startsWithFileScheme uri.rawUri then posix.normalizePath false uri.getRawPath else {}

end LsDocumentUri

end LspCpp
