import LspCpp.UriNormal

/-! The normal form of paths. What normalisation leaves of a path that begins with a slash are the components that a
stack keeps of it, and a path of this form is its own normal form. -/

namespace LspCpp

/-- The components that the stack holds in the end. -/
def stackEval (tokens : List Bytes) : List Bytes := tokens.foldl stackStep []

/-- How many slashes a path begins with. -/
def leadingSlashes (path : Bytes) : Nat := (path.takeWhile (· == 47)).length

/-- The components of an absolute path; the empty one in two slashes at its beginning is none of them. -/
def pathComponents (path : Bytes) : List Bytes :=
  (path.drop (if path.take 2 = [47, 47] then 2 else 1)).splitOn 47

/-- The normal form: a slash at the beginning, none at the end of more than the root, and no component that is empty,
`.` or `..`. -/
structure IsCanonical (path : Bytes) : Prop where
  slash : path.head? = some 47
  no_trailing : path.getLast? = some 47 → path = [47]
  proper : path ≠ [47] → ∀ c ∈ pathComponents path, c ≠ [] ∧ c ≠ bytesOf "." ∧ c ≠ bytesOf ".."

theorem leadingSlashes_eq_two_iff (path : Bytes) :
    leadingSlashes path = 2 ↔ path.take 2 = [47, 47] ∧ path[2]? ≠ some 47 := by
  rcases path with _ | ⟨a, _ | ⟨b, _ | ⟨c, rest⟩⟩⟩
  · simp [leadingSlashes]
  · by_cases ha : a = 47 <;> simp [leadingSlashes, ha]
  · by_cases ha : a = 47 <;> by_cases hb : b = 47 <;> simp [leadingSlashes, ha, hb]
  · by_cases ha : a = 47 <;> by_cases hb : b = 47 <;> by_cases hc : c = 47 <;> simp [leadingSlashes, ha, hb, hc]

section Rendered

variable {P : UInt8 → Prop} {root : Bytes} {components : List Bytes}

theorem flatMap_slash (hne : components ≠ []) :
    (components.flatMap fun c => c ++ [47]) = [47].intercalate components ++ [47] := by
  induction components with
  | nil => exact absurd rfl hne
  | cons c rest ih =>
      rw [List.flatMap_cons]
      by_cases hrest : rest = []
      · rw [hrest, List.flatMap_nil, List.append_nil, List.intercalate_singleton]
      · rw [ih hrest, List.intercalate_cons_of_ne_nil hrest]
        simp only [List.append_assoc]

theorem renderPath_eq_intercalate (root : Bytes) (hne : components ≠ []) :
    renderPath root components = root ++ [47].intercalate components := by
  rw [renderPath, if_neg hne, joinSlashes, flatMap_slash hne, ← List.append_assoc, List.dropLast_concat]

/-- The first byte behind the root is not a slash. -/
theorem intercalate_eq_cons (hcomponents : ∀ c ∈ components, IsComponent P c) (hne : components ≠ []) :
    ∃ b rest, [47].intercalate components = b :: rest ∧ b ≠ 47 := by
  obtain ⟨c, rest, rfl⟩ := List.exists_cons_of_ne_nil hne
  have hc := hcomponents c (List.mem_cons_self ..)
  obtain ⟨b, c, rfl⟩ := List.exists_cons_of_ne_nil hc.ne_nil
  have hb : b ≠ 47 := fun heq => hc.no_slash (heq ▸ List.mem_cons_self ..)
  by_cases hrest : rest = []
  · exact ⟨b, c, by rw [hrest, List.intercalate_singleton], hb⟩
  · exact ⟨b, _, by rw [List.intercalate_cons_of_ne_nil hrest, List.cons_append, List.cons_append], hb⟩

theorem take_two_renderPath (hroot : IsRoot root) (hcomponents : ∀ c ∈ components, IsComponent P c) :
    (renderPath root components).take 2 = [47, 47] ↔ components ≠ [] ∧ root = [47, 47] := by
  by_cases hne : components = []
  · rw [renderPath, if_pos hne]
    simp [hne]
  · obtain ⟨b, rest, hbody, hb⟩ := intercalate_eq_cons hcomponents hne
    rw [renderPath_eq_intercalate root hne, hbody]
    rcases hroot with rfl | rfl
    · simp [hb]
    · simp [hne]

/-- The components of a rendered path are those that it was rendered from. -/
theorem pathComponents_renderPath (hroot : IsRoot root) (hcomponents : ∀ c ∈ components, IsComponent P c)
    (hne : components ≠ []) : pathComponents (renderPath root components) = components := by
  have htake := take_two_renderPath hroot hcomponents
  have hdrop : (renderPath root components).drop (if (renderPath root components).take 2 = [47, 47] then 2 else 1) =
      [47].intercalate components := by
    simp only [htake]
    rw [renderPath_eq_intercalate root hne]
    rcases hroot with rfl | rfl
    · rw [if_neg fun h => absurd h.2 (by decide)]
      rfl
    · rw [if_pos ⟨hne, rfl⟩]
      rfl
  rw [pathComponents, hdrop]
  exact List.splitOn_intercalate 47 (fun c hc => (hcomponents c hc).no_slash) hne

theorem isCanonical_renderPath (hroot : IsRoot root) (hcomponents : ∀ c ∈ components, IsComponent P c) :
    IsCanonical (renderPath root components) := by
  refine ⟨Posix.head?_renderPath hroot components, fun hlast => ?_, fun hne c hc => ?_⟩
  · by_contra hne
    have hnil : components ≠ [] := fun hnil => hne (by rw [renderPath, if_pos hnil])
    obtain ⟨front, c, rfl⟩ := List.eq_nil_or_concat' components |>.resolve_left hnil
    have hc := hcomponents c (by simp)
    rw [renderPath, if_neg hnil, joinSlashes_concat, List.dropLast_concat,
      List.getLast?_append_of_ne_nil _ hc.ne_nil] at hlast
    exact hc.no_slash (List.mem_of_getLast? hlast)
  · have hnil : components ≠ [] := fun hnil => hne (by rw [renderPath, if_pos hnil])
    rw [pathComponents_renderPath hroot hcomponents hnil] at hc
    have hcomponent := hcomponents c hc
    exact ⟨hcomponent.ne_nil, hcomponent.ne_dot, hcomponent.ne_dots⟩

end Rendered

/-- The slash before a path adds an empty component, which the stack drops. -/
theorem stackEval_of_slash {path : Bytes} (hslash : path.head? = some 47) :
    stackEval (path.splitOn 47) = ((path.drop 1).splitOn 47).foldl stackStep [] := by
  obtain ⟨rest, rfl⟩ := List.head?_eq_some_iff.mp hslash
  have hsplit : (47 :: rest).splitOn (47 : UInt8) = [] :: rest.splitOn 47 :=
    List.splitOn_append_cons_self_of_not_mem List.not_mem_nil rest
  rw [hsplit, stackEval, List.foldl_cons]
  rfl

/-- **Normalisation of paths is canonical and idempotent**: the normal form of a path that begins with a slash keeps
two slashes at its beginning only where the path has exactly two, it is its own normal form, and without these two
slashes it consists of the components that the stack keeps. -/
theorem normalizePath_canonical (posix : Posix) {path : Bytes} (hslash : path.head? = some 47) :
    let normal := posix.normalizePath false path
    IsCanonical normal.path ∧
      (normal.path.take 2 = [47, 47] → leadingSlashes path = 2) ∧
      posix.normalizePath false normal.path = normal ∧
      (leadingSlashes path ≠ 2 → normal.path = 47 :: [47].intercalate (stackEval (path.splitOn 47))) := by
  intro normal
  obtain ⟨root, components, hroot, hcomponents, hpath, heval⟩ :=
    posix.normalizePath_of_slash hslash (P := fun _ => True) fun _ _ => trivial
  have hidem : (posix.normalizePath false normal.path).path = normal.path := by
    rw [hpath]
    exact posix.normalizePath_renderPath hroot hcomponents
  rw [← leadingSlashes_eq_two_iff, ← stackEval_of_slash hslash] at heval
  refine ⟨?_, fun htake => ?_, ?_, fun htwo => ?_⟩
  · rw [hpath]
    exact isCanonical_renderPath hroot hcomponents
  · by_contra htwo
    rw [hpath, take_two_renderPath hroot hcomponents, (heval htwo).1] at htake
    exact absurd htake.2 (by decide)
  · cases hleft : posix.normalizePath false normal.path with
    | mk path' =>
        rw [hleft] at hidem
        exact congrArg AbsolutePath.mk hidem
  · obtain ⟨rfl, hcomponents'⟩ := heval htwo
    rw [hpath, ← hcomponents']
    by_cases hnil : components = []
    · rw [renderPath, if_pos hnil, hnil]
      rfl
    · rw [renderPath_eq_intercalate [47] hnil]
      rfl

/-- A path with an empty component, `.`, more than one `..` and a slash at its end. -/
def dottedPath : Bytes := bytesOf "/a/./b//../../../c/"

theorem normalizePath_canonical_dottedPath :
    dottedPath.head? = some 47 ∧ (Posix.normalizePath {} false dottedPath).path = bytesOf "/c" := by
  have hslash : dottedPath.head? = some 47 := by decide
  refine ⟨hslash, ?_⟩
  rw [(normalizePath_canonical {} hslash).2.2.2 (by decide)]
  decide

end LspCpp
