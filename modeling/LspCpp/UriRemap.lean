import LspCpp.PathMapping
import LspCpp.UriPercent

/-! Document URIs through a path mapping: the server's paths as the client's URIs, and the client's URIs as those that
the server uses. -/

namespace LspCpp

namespace PathMapping

/-- `remap_uri_to_client`. -/
def remapUriToClient (mapping : PathMapping) (serverPath : Bytes) : LsDocumentUri :=
  LsDocumentUri.fromPath (AbsolutePath.fromNormalized (mapping.serverToClient serverPath))

/-- `remap_uri_to_server`; the path of a test URI is not mapped. -/
def remapUriToServer (posix : Posix) (mapping : PathMapping) (clientUri : LsDocumentUri) : LsDocumentUri :=
  let uri := Uri.fromRaw clientUri.rawUri
  if uri.isTestScheme then LsDocumentUri.fromPath (uri.toAbsolutePath posix)
  else LsDocumentUri.fromPath (AbsolutePath.fromNormalized (mapping.clientToServer clientUri.getRawPath))

end PathMapping

/-- A path that its URI gives back: it begins with one slash, or with two and a host that is not the local machine. -/
structure Addressable (path : Bytes) : Prop where
  no_backslash : 92 ∉ path
  root : (∃ rest, path = 47 :: rest ∧ rest.head? ≠ some 47) ∨
    ∃ host tail, path = 47 :: 47 :: (host ++ tail) ∧ host ≠ [] ∧ 47 ∉ host ∧ (tail = [] ∨ tail.head? = some 47)
  no_localhost : ¬HasLocalhostRoot path

theorem Addressable.cons {path : Bytes} (h : Addressable path) : ∃ rest, path = 47 :: rest := by
  rcases h.root with ⟨rest, rfl, -⟩ | ⟨host, tail, rfl, -⟩
  · exact ⟨rest, rfl⟩
  · exact ⟨47 :: (host ++ tail), rfl⟩

theorem Addressable.fromPath_eq {path : Bytes} (h : Addressable path) :
    LsDocumentUri.fromPath (AbsolutePath.fromNormalized path) = ⟨makeFileUriFromPath path⟩ := by
  obtain ⟨rest, rfl⟩ := h.cons
  rfl

theorem Addressable.getRawPath {path : Bytes} (h : Addressable path) :
    (LsDocumentUri.fromPath (AbsolutePath.fromNormalized path)).getRawPath = path := by
  rw [h.fromPath_eq]
  exact (rawPath_makeFileUri h.no_backslash h.root).2.mpr h.no_localhost

/-- Such paths have URIs of their own. -/
theorem Addressable.fromPath_inj {path path' : Bytes} (h : Addressable path) (h' : Addressable path') :
    LsDocumentUri.fromPath (AbsolutePath.fromNormalized path) =
        LsDocumentUri.fromPath (AbsolutePath.fromNormalized path') ↔ path = path' := by
  constructor
  · intro heq
    rw [← h.getRawPath, heq, h'.getRawPath]
  · rintro rfl
    rfl

/-- The URI of a path has the scheme of files. -/
theorem Addressable.not_test {path : Bytes} (h : Addressable path) :
    (Uri.fromRaw (LsDocumentUri.fromPath (AbsolutePath.fromNormalized path)).rawUri).isTestScheme = false := by
  rw [h.fromPath_eq]
  obtain ⟨rest, rfl⟩ := h.cons
  show (Uri.fromRaw (makeFileUriFromPath (47 :: rest))).isTestScheme = false
  rw [makeFileUriFromPath_eq h.no_backslash]
  split_ifs <;> rfl

namespace PathMapping

theorem remapUriToServer_fromPath (posix : Posix) (mapping : PathMapping) {path : Bytes} (h : Addressable path) :
    mapping.remapUriToServer posix (LsDocumentUri.fromPath (AbsolutePath.fromNormalized path)) =
      LsDocumentUri.fromPath (AbsolutePath.fromNormalized (mapping.clientToServer path)) := by
  unfold remapUriToServer
  simp only [h.not_test, h.getRawPath, Bool.false_eq_true, if_false]

/-- With prefixes of which none applies to another, on either side, the URI that a client is given for a path of the
server comes back as the URI of that path, and the client has its own URI again for the path that the server reads from
the URI it was given, where an entry applies to the path or none does on the other side; and in no other case, if the
path that comes back can be addressed too. -/
theorem remapUri_roundTrip (posix : Posix) (mapping : PathMapping)
    (hclient : PrefixesApart (·.clientPrefix) mapping.entries)
    (hserver : PrefixesApart (·.serverPrefix) mapping.entries) (path : Bytes) :
    (Addressable (mapping.serverToClient path) →
        (OfOneSide (·.serverPrefix) (·.clientPrefix) mapping.entries path →
          mapping.remapUriToServer posix (mapping.remapUriToClient path) =
            LsDocumentUri.fromPath (AbsolutePath.fromNormalized path)) ∧
        (Addressable path → Addressable (mapping.clientToServer (mapping.serverToClient path)) →
          mapping.remapUriToServer posix (mapping.remapUriToClient path) =
              LsDocumentUri.fromPath (AbsolutePath.fromNormalized path) →
            OfOneSide (·.serverPrefix) (·.clientPrefix) mapping.entries path)) ∧
      (Addressable path → Addressable (mapping.clientToServer path) →
        (OfOneSide (·.clientPrefix) (·.serverPrefix) mapping.entries path →
          mapping.remapUriToClient
              (mapping.remapUriToServer posix (LsDocumentUri.fromPath (AbsolutePath.fromNormalized path))).getRawPath =
            LsDocumentUri.fromPath (AbsolutePath.fromNormalized path)) ∧
        (Addressable (mapping.serverToClient (mapping.clientToServer path)) →
          mapping.remapUriToClient
              (mapping.remapUriToServer posix (LsDocumentUri.fromPath (AbsolutePath.fromNormalized path))).getRawPath =
              LsDocumentUri.fromPath (AbsolutePath.fromNormalized path) →
            OfOneSide (·.clientPrefix) (·.serverPrefix) mapping.entries path)) := by
  have hthere : mapping.clientToServer (mapping.serverToClient path) = path ↔ _ :=
    hserver.remapEntries_roundTrip_iff hclient path
  have hback : mapping.serverToClient (mapping.clientToServer path) = path ↔ _ :=
    hclient.remapEntries_roundTrip_iff hserver path
  constructor
  · intro hmapped
    rw [remapUriToClient, remapUriToServer_fromPath posix mapping hmapped, ← hthere]
    exact ⟨fun heq => by rw [heq], fun hpath hreturned => (hreturned.fromPath_inj hpath).mp⟩
  · intro hpath hmapped
    rw [remapUriToServer_fromPath posix mapping hpath, hmapped.getRawPath, remapUriToClient, ← hback]
    exact ⟨fun heq => by rw [heq], fun hreturned => (hreturned.fromPath_inj hpath).mp⟩

/-- A file of the first project, whose name has a blank and a letter of two bytes, and a path of the client, which is
none of the server. -/
theorem remapUri_roundTrip_projectsMapping :
    projectsMapping.remapUriToServer {}
          (projectsMapping.remapUriToClient (bytesOf "/server/project/a é.cpp")) =
        LsDocumentUri.fromPath (AbsolutePath.fromNormalized (bytesOf "/server/project/a é.cpp")) ∧
      projectsMapping.remapUriToServer {} (projectsMapping.remapUriToClient (bytesOf "/client/project/x")) ≠
        LsDocumentUri.fromPath (AbsolutePath.fromNormalized (bytesOf "/client/project/x")) := by
  have hclient : PrefixesApart (·.clientPrefix) projectsMapping.entries := ⟨by decide, by decide, by decide⟩
  have hserver : PrefixesApart (·.serverPrefix) projectsMapping.entries := ⟨by decide, by decide, by decide⟩
  have hround := remapUri_roundTrip {} projectsMapping hclient hserver
  have hmapped : Addressable (projectsMapping.serverToClient (bytesOf "/server/project/a é.cpp")) :=
    ⟨by decide, .inl ⟨bytesOf "client/project/a é.cpp", by decide, by decide⟩, by decide⟩
  have hserverPath : Addressable (bytesOf "/server/project/x") :=
    ⟨by decide, .inl ⟨bytesOf "server/project/x", by decide, by decide⟩, by decide⟩
  have hclientPath : Addressable (bytesOf "/client/project/x") :=
    ⟨by decide, .inl ⟨bytesOf "client/project/x", by decide, by decide⟩, by decide⟩
  have hsame : projectsMapping.serverToClient (bytesOf "/client/project/x") = bytesOf "/client/project/x" := by decide
  have hto : projectsMapping.clientToServer (bytesOf "/client/project/x") = bytesOf "/server/project/x" := by decide
  refine ⟨((hround _).1 hmapped).1 (.inl (by decide)), fun heq => ?_⟩
  have hside := ((hround _).1 (by rw [hsame]; exact hclientPath)).2 hclientPath
    (by rw [hsame, hto]; exact hserverPath) heq
  rcases hside with happlies | hnone
  · exact absurd happlies (by decide)
  · exact absurd hnone (by decide)

end PathMapping

end LspCpp
