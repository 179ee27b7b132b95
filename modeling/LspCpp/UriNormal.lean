import LspCpp.UriPath

/-! The paths that normalisation gives: one or two slashes and components between single slashes. A path of this form
is left as it is. -/

namespace LspCpp

/-- A component that stays: neither empty nor `.` nor `..`, and of bytes that meet `P`. -/
structure IsComponent (P : UInt8 → Prop) (component : Bytes) : Prop where
  ne_nil : component ≠ []
  ne_dot : component ≠ bytesOf "."
  ne_dots : component ≠ bytesOf ".."
  no_slash : 47 ∉ component
  bytes : ∀ b ∈ component, P b

/-- The roots of a normalised path. -/
def IsRoot (root : Bytes) : Prop := root = [47] ∨ root = [47, 47]

/-- The components behind a root, each with a slash. -/
def joinSlashes (root : Bytes) (components : List Bytes) : Bytes := root ++ components.flatMap fun c => c ++ [47]

/-- A normalised path: without components it is the root with one slash. -/
def renderPath (root : Bytes) (components : List Bytes) : Bytes :=
  if components = [] then [47] else (joinSlashes root components).dropLast

/-- The components that are left when one more is read: an empty one and `.` are dropped, `..` takes the last one
away, where there is one. -/
def stackStep (components : List Bytes) (token : Bytes) : List Bytes :=
  if token = [] ∨ token = bytesOf "." then components
  else if token = bytesOf ".." then components.dropLast
  else components ++ [token]

/-- How far the loop of `RealPathNotExpandSymlink` is: the components that it has kept. -/
structure Resolves (P : UInt8 → Prop) (resolved root : Bytes) (components : List Bytes) : Prop where
  ne_nil : resolved ≠ []
  isRoot : IsRoot root
  isComponent : ∀ c ∈ components, IsComponent P c
  closed : closeSlash resolved = joinSlashes root components

section Slashes

theorem closeSlash_of_getLast? {resolved : Bytes} (h : resolved.getLast? = some 47) :
    closeSlash resolved = resolved := if_pos h

theorem closeSlash_append {resolved component : Bytes} (hne : component ≠ []) (hslash : 47 ∉ component) :
    closeSlash (resolved ++ component) = resolved ++ component ++ [47] := by
  have hlast : (resolved ++ component).getLast? ≠ some 47 := by
    rw [List.getLast?_append_of_ne_nil _ hne]
    exact fun h => hslash (List.mem_of_getLast? h)
  exact if_neg hlast

theorem getLast?_root {root : Bytes} (hroot : IsRoot root) : root.getLast? = some 47 := by
  rcases hroot with rfl | rfl <;> rfl

theorem joinSlashes_concat (root : Bytes) (components : List Bytes) (c : Bytes) :
    joinSlashes root (components ++ [c]) = joinSlashes root components ++ c ++ [47] := by
  simp [joinSlashes]

theorem getLast?_joinSlashes {root : Bytes} (hroot : IsRoot root) (components : List Bytes) :
    (joinSlashes root components).getLast? = some 47 := by
  rcases List.eq_nil_or_concat' components with rfl | ⟨components, c, rfl⟩
  · rw [joinSlashes, List.flatMap_nil, List.append_nil]
    exact getLast?_root hroot
  · rw [joinSlashes_concat, List.getLast?_concat]

theorem one_lt_length_joinSlashes {root : Bytes} (hroot : IsRoot root) {components : List Bytes}
    (hne : components ≠ []) : 1 < (joinSlashes root components).length := by
  obtain ⟨c, rest, rfl⟩ := List.exists_cons_of_ne_nil hne
  have hpos : 0 < root.length := by rcases hroot with rfl | rfl <;> decide
  rw [joinSlashes, List.flatMap_cons, List.length_append, List.length_append, List.length_append,
    List.length_singleton]
  omega

/-- A path that ends in a slash, without the bytes behind that slash. -/
theorem rdropWhile_slash {path component : Bytes} (hpath : path.getLast? = some 47) (hslash : 47 ∉ component) :
    (path ++ component).rdropWhile (· != 47) = path := by
  obtain ⟨front, rfl⟩ := List.getLast?_eq_some_iff.mp hpath
  have hall : ∀ b ∈ component.reverse, (b != 47) = true := by
    intro b hb
    rw [bne_iff_ne]
    rintro rfl
    exact hslash (List.mem_reverse.mp hb)
  rw [List.rdropWhile, List.reverse_append, List.dropWhile_append_of_pos hall, List.reverse_append]
  simp

theorem stripLast_joinSlashes {root : Bytes} (hroot : IsRoot root) (components : List Bytes) {c : Bytes}
    (hslash : 47 ∉ c) : stripLast (joinSlashes root (components ++ [c])) = joinSlashes root components := by
  rw [joinSlashes_concat, stripLast, List.dropLast_concat]
  exact rdropWhile_slash (getLast?_joinSlashes hroot components) hslash

end Slashes

namespace Resolves

variable {P : UInt8 → Prop} {resolved root : Bytes} {components : List Bytes}

theorem init {root : Bytes} (hroot : IsRoot root) : Resolves P root root [] where
  ne_nil := by rcases hroot with rfl | rfl <;> simp
  isRoot := hroot
  isComponent := by simp
  closed := by
    rw [closeSlash_of_getLast? (getLast?_root hroot), joinSlashes, List.flatMap_nil, List.append_nil]

/-- A path that is closed resolves to the same components. -/
theorem of_joinSlashes (hroot : IsRoot root) (hcomponents : ∀ c ∈ components, IsComponent P c) :
    Resolves P (joinSlashes root components) root components where
  ne_nil := by rcases hroot with rfl | rfl <;> simp [joinSlashes]
  isRoot := hroot
  isComponent := hcomponents
  closed := closeSlash_of_getLast? (getLast?_joinSlashes hroot components)

/-- `..` takes the last component away; without one, two slashes become one and a single one stays. -/
theorem parent (h : Resolves P resolved root components) :
    ∃ root', (root' = root ∨ root' = [47]) ∧ Resolves P
      (if 1 < (closeSlash resolved).length then stripLast (closeSlash resolved) else closeSlash resolved)
      root' components.dropLast := by
  rw [h.closed]
  rcases List.eq_nil_or_concat' components with rfl | ⟨components, c, rfl⟩
  · refine ⟨[47], .inr rfl, ?_⟩
    rcases h.isRoot with rfl | rfl
    · exact init (.inl rfl)
    · exact init (.inl rfl)
  · have hkept : ∀ c' ∈ components, IsComponent P c' := fun c' hc' =>
      h.isComponent c' (List.mem_append_left _ hc')
    refine ⟨root, .inl rfl, ?_⟩
    rw [if_pos (one_lt_length_joinSlashes h.isRoot (by simp)),
      stripLast_joinSlashes h.isRoot components (h.isComponent c (by simp)).no_slash, List.dropLast_concat]
    exact of_joinSlashes h.isRoot hkept

theorem push (h : Resolves P resolved root components) {c : Bytes} (hc : IsComponent P c) :
    Resolves P (closeSlash resolved ++ c) root (components ++ [c]) where
  ne_nil := by simp [hc.ne_nil]
  isRoot := h.isRoot
  isComponent := by
    intro c' hc'
    rcases List.mem_append.mp hc' with hc' | hc'
    · exact h.isComponent c' hc'
    · rw [List.mem_singleton.mp hc']
      exact hc
  closed := by rw [closeSlash_append hc.ne_nil hc.no_slash, h.closed, joinSlashes_concat]

/-- A normalised path resolves to its components. -/
theorem of_dropLast (hroot : IsRoot root) (hne : components ≠ [])
    (hcomponents : ∀ c ∈ components, IsComponent P c) :
    Resolves P (joinSlashes root components).dropLast root components := by
  obtain ⟨front, c, rfl⟩ := List.eq_nil_or_concat' components |>.resolve_left hne
  have hfront : ∀ c' ∈ front, IsComponent P c' := fun c' hc' => hcomponents c' (List.mem_append_left _ hc')
  have hpush := (of_joinSlashes hroot hfront).push (hcomponents c (by simp))
  rw [closeSlash_of_getLast? (getLast?_joinSlashes hroot front)] at hpush
  rw [joinSlashes_concat, List.dropLast_concat]
  exact hpush

theorem of_renderPath (hroot : IsRoot root) (hcomponents : ∀ c ∈ components, IsComponent P c) :
    ∃ root', Resolves P (renderPath root components) root' components := by
  by_cases hnil : components = []
  · rw [renderPath, if_pos hnil, hnil]
    exact ⟨[47], init (.inl rfl)⟩
  · rw [renderPath, if_neg hnil]
    exact ⟨root, of_dropLast hroot hnil hcomponents⟩

end Resolves

namespace Posix

variable (posix : Posix) {P : UInt8 → Prop}

/-- A component that is kept is appended, whatever the file system says. -/
theorem appendToken_component (resolved : Bytes) {c : Bytes} (hc : IsComponent P c) (more : Bool) :
    posix.appendToken false resolved c more = some (closeSlash resolved ++ c) := by
  rw [appendToken]
  simp only [hc.ne_nil, hc.ne_dot, hc.ne_dots, or_self, if_false]
  split <;> rfl

/-- One token of the loop. -/
theorem appendToken_resolves {resolved root : Bytes} {components : List Bytes}
    (h : Resolves P resolved root components) {nextToken : Bytes} (hslash : 47 ∉ nextToken)
    (hbytes : ∀ b ∈ nextToken, P b) (more : Bool) :
    ∃ resolved' root', posix.appendToken false resolved nextToken more = some resolved' ∧
      (root' = root ∨ root' = [47]) ∧ Resolves P resolved' root' (stackStep components nextToken) := by
  rw [stackStep]
  by_cases hskip : nextToken = [] ∨ nextToken = bytesOf "."
  · refine ⟨closeSlash resolved, root, by rw [appendToken, if_pos hskip], .inl rfl, ?_⟩
    rw [h.closed, if_pos hskip]
    exact .of_joinSlashes h.isRoot h.isComponent
  rw [if_neg hskip]
  by_cases hdots : nextToken = bytesOf ".."
  · obtain ⟨root', hroot, hparent⟩ := h.parent
    rw [if_pos hdots]
    exact ⟨_, root', by rw [appendToken, if_neg hskip, if_pos hdots], hroot, hparent⟩
  · have hc : IsComponent P nextToken :=
      ⟨fun heq => hskip (.inl heq), fun heq => hskip (.inr heq), hdots, hslash, hbytes⟩
    rw [if_neg hdots]
    exact ⟨_, root, appendToken_component posix resolved hc more, .inl rfl, h.push hc⟩

/-- The loop over a whole path evaluates its components on the stack of those that it has kept; the token that has
been read so far has no slash. -/
theorem appendTokens_resolves (path : Bytes) {nextToken resolved root : Bytes} {components : List Bytes}
    (h : Resolves P resolved root components) (hslash : 47 ∉ nextToken) (hbytes : ∀ b ∈ nextToken, P b)
    (hpath : ∀ b ∈ path, P b) :
    ∃ resolved' root', posix.appendTokens false path nextToken resolved = some resolved' ∧
      (root' = root ∨ root' = [47]) ∧
      Resolves P resolved' root' (((nextToken ++ path).splitOn 47).foldl stackStep components) := by
  induction path generalizing nextToken resolved root components with
  | nil =>
      rw [appendTokens, List.append_nil, List.splitOn_eq_singleton hslash, List.foldl_cons, List.foldl_nil]
      split_ifs with hnil
      · have hstep : stackStep components nextToken = components := if_pos (.inl hnil)
        rw [hstep]
        exact ⟨resolved, root, rfl, .inl rfl, h⟩
      · exact appendToken_resolves posix h hslash hbytes false
  | cons c path ih =>
      have hrest : ∀ b ∈ path, P b := fun b hb => hpath b (List.mem_cons_of_mem _ hb)
      rw [appendTokens]
      split_ifs with hc
      · obtain ⟨next, root', hnext, hroot, hresolves⟩ := appendToken_resolves posix h hslash hbytes true
        obtain ⟨resolved', root'', htokens, hroot', hresolves'⟩ := ih hresolves List.not_mem_nil (by simp) hrest
        rw [hnext, hc, List.splitOn_append_cons_self_of_not_mem hslash, List.foldl_cons]
        refine ⟨resolved', root'', htokens, ?_, hresolves'⟩
        rcases hroot' with rfl | rfl
        · exact hroot
        · exact .inr rfl
      · have hsplit : nextToken ++ c :: path = nextToken ++ [c] ++ path := by
          rw [List.append_assoc, List.singleton_append]
        rw [hsplit]
        refine ih h ?_ ?_ hrest
        · simp [hslash, Ne.symm hc]
        · intro b hb
          rcases List.mem_append.mp hb with hb | hb
          · exact hbytes b hb
          · rw [List.mem_singleton.mp hb]
            exact hpath c (List.mem_cons_self ..)

/-- What is left when the loop ends is a normalised path. -/
theorem trim_resolves {resolved root : Bytes} {components : List Bytes} (h : Resolves P resolved root components) :
    (if 1 < resolved.length ∧ resolved.getLast? = some 47 then resolved.dropLast else resolved) =
      renderPath root components := by
  have hclosed := h.closed
  rw [closeSlash] at hclosed
  by_cases hlast : resolved.getLast? = some 47
  · rw [if_pos hlast] at hclosed
    subst hclosed
    rw [renderPath]
    split_ifs with hlong hnil hnil
    · rw [hnil] at hlong ⊢
      rcases h.isRoot with rfl | rfl
      · exact absurd hlong (by decide)
      · rfl
    · rfl
    · rw [hnil]
      rw [hnil] at hlong
      rcases h.isRoot with rfl | rfl
      · rfl
      · exact absurd ⟨by decide, rfl⟩ hlong
    · exact absurd ⟨one_lt_length_joinSlashes h.isRoot hnil, hlast⟩ hlong
  · rw [if_neg hlast] at hclosed
    rw [if_neg fun hlong => hlast hlong.2, renderPath]
    have hnil : components ≠ [] := by
      rintro rfl
      rcases h.isRoot with rfl | rfl
      · exact h.ne_nil (List.append_cancel_right (hclosed.trans (List.nil_append _).symm))
      · have hslash : resolved = [47] := List.append_cancel_right (hclosed : resolved ++ [47] = [47] ++ [47])
        exact hlast (by rw [hslash]; rfl)
    rw [if_neg hnil, ← hclosed, List.dropLast_concat]

theorem head?_renderPath {root : Bytes} (hroot : IsRoot root) (components : List Bytes) :
    (renderPath root components).head? = some 47 := by
  rw [renderPath]
  split_ifs with hnil
  · rfl
  · obtain ⟨c, rest, rfl⟩ := List.exists_cons_of_ne_nil hnil
    rcases hroot with rfl | rfl <;> simp [joinSlashes, List.dropLast_cons_of_ne_nil]

theorem isAbsolutePath_renderPath {root : Bytes} (hroot : IsRoot root) (components : List Bytes) :
    isAbsolutePath (renderPath root components) = true := by
  rw [isAbsolutePath, isUnixAbsolutePath, head?_renderPath hroot]
  rfl

theorem normalizePath_eq {path root rest resolved root' : Bytes} {components : List Bytes}
    (hpath : path ≠ []) (hnul : path.head? ≠ some 0) (hroot : posix.resolveRoot path = (root, rest))
    (hne : root ≠ []) (htokens : posix.appendTokens false rest [] root = some resolved)
    (h : Resolves P resolved root' components) :
    (posix.normalizePath false path).path = renderPath root' components := by
  have hstart : ¬(path = [] ∨ path.head? = some 0) := by
    rintro (heq | heq)
    · exact hpath heq
    · exact hnul heq
  simp only [normalizePath, realPathNotExpandSymlink, if_neg hstart, hroot, if_neg hne, htokens,
    trim_resolves h, AbsolutePath.fromNormalized, if_pos (isAbsolutePath_renderPath h.isRoot _)]

/-- The path from which a normalisation begins: a root with the rest of the path, or the working directory. -/
theorem normalizePath_of_resolves {path root rest root' : Bytes} {components : List Bytes}
    (hpath : path ≠ []) (hnul : path.head? ≠ some 0) (hroot : posix.resolveRoot path = (root, rest))
    (h : Resolves P root root' components) (hrest : ∀ b ∈ rest, P b) :
    ∃ root'' components', IsRoot root'' ∧ (∀ c ∈ components', IsComponent P c) ∧
      (root'' = root' ∨ root'' = [47]) ∧ components' = (rest.splitOn 47).foldl stackStep components ∧
      (posix.normalizePath false path).path = renderPath root'' components' := by
  obtain ⟨resolved, root'', htokens, hkept, hresolves⟩ :=
    appendTokens_resolves posix rest h List.not_mem_nil (by simp) hrest
  exact ⟨root'', _, hresolves.isRoot, hresolves.isComponent, hkept, rfl,
    normalizePath_eq posix hpath hnul hroot h.ne_nil htokens hresolves⟩

/-- A path that begins with a slash and not with exactly two is normalised from the root with one slash. -/
theorem normalizePath_of_slash {path : Bytes} (hslash : path.head? = some 47) (hbytes : ∀ b ∈ path, P b) :
    ∃ root components, IsRoot root ∧ (∀ c ∈ components, IsComponent P c) ∧
      (posix.normalizePath false path).path = renderPath root components ∧
      (¬(path.take 2 = [47, 47] ∧ path[2]? ≠ some 47) →
        root = [47] ∧ components = ((path.drop 1).splitOn 47).foldl stackStep []) := by
  have hne : path ≠ [] := by
    rintro rfl
    cases hslash
  have hnul : path.head? ≠ some 0 := by
    rw [hslash]
    decide
  by_cases htwo : path.take 2 = [47, 47] ∧ path[2]? ≠ some 47
  · obtain ⟨root, components, hroot, hcomponents, -, -, hpath⟩ :=
      normalizePath_of_resolves posix hne hnul (by rw [resolveRoot, if_pos htwo]) (.init (.inr rfl))
        fun b hb => hbytes b (List.mem_of_mem_drop hb)
    exact ⟨root, components, hroot, hcomponents, hpath, fun hnot => absurd htwo hnot⟩
  · obtain ⟨root, components, hroot, hcomponents, hkept, heval, hpath⟩ :=
      normalizePath_of_resolves posix hne hnul (by rw [resolveRoot, if_neg htwo, if_pos hslash]) (.init (.inl rfl))
        fun b hb => hbytes b (List.mem_of_mem_drop hb)
    refine ⟨root, components, hroot, hcomponents, hpath, fun _ => ⟨?_, heval⟩⟩
    rcases hkept with rfl | rfl
    · rfl
    · rfl

/-- The loop reads a token up to the next slash. -/
theorem appendTokens_append {token : Bytes} (hslash : 47 ∉ token) (rest nextToken resolved : Bytes) :
    posix.appendTokens false (token ++ rest) nextToken resolved =
      posix.appendTokens false rest (nextToken ++ token) resolved := by
  induction token generalizing nextToken with
  | nil => rw [List.nil_append, List.append_nil]
  | cons c token ih =>
      have hc : ¬c = 47 := fun heq => hslash (heq ▸ List.mem_cons_self ..)
      rw [List.cons_append, appendTokens, if_neg hc, ih fun h => hslash (List.mem_cons_of_mem _ h)]
      rw [List.append_assoc]
      rfl

/-- Components that stay are appended one after the other. -/
theorem appendTokens_components (components : List Bytes) (hne : components ≠ [])
    (hcomponents : ∀ c ∈ components, IsComponent P c) (resolved : Bytes) :
    posix.appendTokens false (components.flatMap fun c => c ++ [47]).dropLast [] resolved =
      some (closeSlash resolved ++ components.flatMap fun c => c ++ [47]).dropLast := by
  induction components generalizing resolved with
  | nil => exact absurd rfl hne
  | cons c rest ih =>
      have hc := hcomponents c (List.mem_cons_self ..)
      cases rest with
      | nil =>
          simp only [List.flatMap_cons, List.flatMap_nil, List.append_nil, List.dropLast_concat]
          rw [← List.append_assoc, List.dropLast_concat]
          have hread := appendTokens_append posix hc.no_slash [] [] resolved
          rw [List.append_nil, List.nil_append, appendTokens, if_neg hc.ne_nil] at hread
          rw [hread]
          exact appendToken_component posix resolved hc false
      | cons c' rest =>
          have hrest : ((c' :: rest).flatMap fun c => c ++ [47]) ≠ [] := by simp
          rw [List.flatMap_cons, List.dropLast_append_of_ne_nil hrest, List.append_assoc,
            appendTokens_append posix hc.no_slash, List.nil_append, List.singleton_append, appendTokens,
            if_pos rfl, appendToken_component posix resolved hc true, Option.bind_some,
            ih (List.cons_ne_nil _ _) (fun c hc => hcomponents c (List.mem_cons_of_mem _ hc)),
            closeSlash_append hc.ne_nil hc.no_slash]
          simp only [List.append_assoc]

/-- The root of a normalised path is found again. -/
theorem resolveRoot_joinSlashes {root : Bytes} (hroot : IsRoot root) {components : List Bytes}
    (hne : components ≠ []) (hcomponents : ∀ c ∈ components, IsComponent P c) :
    posix.resolveRoot (joinSlashes root components).dropLast =
      (root, (components.flatMap fun c => c ++ [47]).dropLast) := by
  obtain ⟨c, rest, rfl⟩ := List.exists_cons_of_ne_nil hne
  have hc := hcomponents c (List.mem_cons_self ..)
  obtain ⟨b, c, rfl⟩ := List.exists_cons_of_ne_nil hc.ne_nil
  have hb : b ≠ 47 := fun heq => hc.no_slash (heq ▸ List.mem_cons_self ..)
  have hflat : (((b :: c) :: rest).flatMap fun c => c ++ [47]) ≠ [] := by simp
  have htail : c ++ [47] ++ (rest.flatMap fun c => c ++ [47]) ≠ [] := by simp
  rw [joinSlashes, List.dropLast_append_of_ne_nil hflat]
  have hbody : (((b :: c) :: rest).flatMap fun c => c ++ [47]).dropLast =
      b :: (c ++ [47] ++ (rest.flatMap fun c => c ++ [47])).dropLast := by
    rw [List.flatMap_cons, List.cons_append, List.cons_append, List.dropLast_cons_of_ne_nil htail]
  rw [hbody, resolveRoot]
  rcases hroot with rfl | rfl
  · simp [hb]
  · simp [hb]

theorem normalizePath_renderPath {root : Bytes} (hroot : IsRoot root) {components : List Bytes}
    (hcomponents : ∀ c ∈ components, IsComponent P c) :
    (posix.normalizePath false (renderPath root components)).path = renderPath root components := by
  by_cases hnil : components = []
  · rw [renderPath, if_pos hnil]
    rfl
  · have hrender : renderPath root components = (joinSlashes root components).dropLast := if_neg hnil
    have hhead := head?_renderPath hroot components
    have htokens := appendTokens_components posix components hnil hcomponents root
    rw [closeSlash_of_getLast? (getLast?_root hroot)] at htokens
    refine normalizePath_eq posix ?_ ?_ ?_ ?_ htokens (Resolves.of_dropLast hroot hnil hcomponents)
    · exact fun heq => by rw [heq] at hhead; cases hhead
    · rw [hhead]
      decide
    · rw [hrender]
      exact resolveRoot_joinSlashes posix hroot hnil hcomponents
    · rcases hroot with rfl | rfl <;> decide

end Posix

end LspCpp
