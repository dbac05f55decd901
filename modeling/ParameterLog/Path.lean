/-
Module: ParameterLog.Path
Purpose: names of files: their parts, the directory they lie in, and the home directory.
Main exports: Path.segments, Path.slashed?, Path.parent?, Path.expandHome, Path.join_segments,
  Path.segments_join, Path.expandHome_eq_self, Path.expandHome_join, Path.parent?_join,
  Path.slashed?_slashes
-/

/-!
A path is a text whose parts stand between slashes. A part that is empty or a single point says
nothing, except for a point that starts the path. The directory of a path is what is left without
its last part that says something. A path that starts with the part `~` starts in the home
directory; another path is left as it is, down to its spelling.
-/

namespace ParameterLog.Path

/-- The texts between the slashes. -/
def splitAtSlashes : List Char → List (List Char)
  | [] => [[]]
  | c :: rest =>
    if c = '/' then [] :: splitAtSlashes rest
    else
      match splitAtSlashes rest with
      | [] => [[c]]
      | part :: parts => (c :: part) :: parts

/-- The parts of a path, empty ones included. -/
def segments (path : String) : List String := (splitAtSlashes path.toList).map String.ofList

/-- Parts with slashes between them. -/
def join (parts : List String) : String := "/".intercalate parts

/-- Whether a part says nothing. -/
def idle (part : String) : Bool := part == "" || part == "."

/-- Parts without those at the end that say nothing. -/
def trimEnd (parts : List String) : List String := (parts.reverse.dropWhile idle).reverse

/-- Parts without those at the end that only slashes make. -/
def trimSlashes (parts : List String) : List String := (parts.reverse.dropWhile (· == "")).reverse

/-- The parts above the last one, if that is a name with slashes behind it. -/
def slashed? (parts : List String) : Option (List String) :=
  match (trimSlashes parts).reverse with
  | name :: above =>
    if idle name || name == ".." || parts.getLast? != some "" then none else some above.reverse
  | [] => none

/-- The parts of a path split into its start, which is a point or the root if it has one, and the
rest. -/
def start (path : String) : String × List String :=
  match segments path with
  | "" :: first :: rest => ("/", first :: rest)
  | "." :: rest => ("." ++ (if rest.isEmpty then "" else "/"), rest)
  | parts => ("", parts)

/-- The directory that a path lies in; the root and the empty path lie in none. -/
def parent? (path : String) : Option String :=
  let (front, parts) := start path
  match (trimEnd parts).reverse with
  | _ :: above =>
    let above := trimEnd above.reverse
    if above.isEmpty && front == "./" then some "." else some (front ++ join above)
  | [] => if front == "." || front == "./" then some "" else none

/-- A path with its first part `~` replaced by the home directory. -/
def expandHome (home path : String) : String :=
  match segments path with
  | "~" :: rest =>
    let rest := join (trimEnd (rest.dropWhile idle))
    if home.isEmpty || home.endsWith "/" then home ++ rest else home ++ "/" ++ rest
  | _ => path

/-! ### Parts -/

theorem splitAtSlashes_of_not_mem {part : List Char} (h : '/' ∉ part) :
    splitAtSlashes part = [part] := by
  induction part with
  | nil => rfl
  | cons c rest ih =>
    simp only [List.mem_cons, not_or] at h
    rw [splitAtSlashes, if_neg (Ne.symm h.1), ih h.2]

theorem splitAtSlashes_append {part : List Char} (h : '/' ∉ part) (rest : List Char) :
    splitAtSlashes (part ++ '/' :: rest) = part :: splitAtSlashes rest := by
  induction part with
  | nil => rw [List.nil_append, splitAtSlashes, if_pos rfl]
  | cons c part ih =>
    simp only [List.mem_cons, not_or] at h
    rw [List.cons_append, splitAtSlashes, if_neg (Ne.symm h.1), ih h.2]

/-- Texts without slashes are what stands between the slashes of the text that they make. -/
theorem splitAtSlashes_intercalate {parts : List (List Char)} (hsome : parts ≠ [])
    (h : ∀ part ∈ parts, '/' ∉ part) : splitAtSlashes (['/'].intercalate parts) = parts := by
  induction parts with
  | nil => contradiction
  | cons part parts ih =>
    obtain ⟨hpart, hrest⟩ := List.forall_mem_cons.mp h
    cases parts with
    | nil => rw [List.intercalate_singleton, splitAtSlashes_of_not_mem hpart]
    | cons next parts =>
      rw [List.intercalate_cons_cons, List.append_assoc, List.singleton_append,
        splitAtSlashes_append hpart, ih (List.cons_ne_nil _ _) hrest]

theorem splitAtSlashes_ne_nil (text : List Char) : splitAtSlashes text ≠ [] := by
  cases text with
  | nil => simp [splitAtSlashes]
  | cons c rest =>
    rw [splitAtSlashes]
    split
    · simp
    · split <;> simp

/-- A text is what stands between its slashes, with slashes between. -/
theorem intercalate_splitAtSlashes (text : List Char) :
    ['/'].intercalate (splitAtSlashes text) = text := by
  induction text with
  | nil => rfl
  | cons c rest ih =>
    obtain ⟨part, parts, hrest⟩ := List.exists_cons_of_ne_nil (splitAtSlashes_ne_nil rest)
    rw [hrest] at ih
    rw [splitAtSlashes, hrest]
    split
    · next hslash => rw [List.intercalate_cons_cons, ih, hslash]; rfl
    · rw [← ih]
      cases parts <;> simp [List.intercalate_cons_cons]

theorem join_segments (path : String) : join (segments path) = path := by
  rw [join, segments, ← String.toList_inj, String.toList_intercalate, List.map_map]
  have hsame : String.toList ∘ String.ofList = id := funext fun _ => String.toList_ofList
  rw [hsame, List.map_id]
  exact intercalate_splitAtSlashes path.toList

theorem segments_join {parts : List String} (hsome : parts ≠ [])
    (h : ∀ part ∈ parts, '/' ∉ part.toList) : segments (join parts) = parts := by
  have hparts : ∀ part ∈ parts.map String.toList, '/' ∉ part := by simpa using h
  have hslash : "/".toList = ['/'] := rfl
  have hsame : String.ofList ∘ String.toList = id := funext fun _ => String.ofList_toList
  rw [segments, join, String.toList_intercalate, hslash,
    splitAtSlashes_intercalate (by simpa using hsome) hparts, List.map_map, hsame, List.map_id]

/-- A part that is a name or two points. -/
def IsName (part : String) : Prop := '/' ∉ part.toList ∧ idle part = false

theorem trimEnd_names {parts : List String} (h : ∀ part ∈ parts, IsName part) :
    trimEnd parts = parts := by
  rcases List.eq_nil_or_concat parts with rfl | ⟨above, name, rfl⟩
  · rfl
  · rw [List.concat_eq_append] at h ⊢
    simp [trimEnd, (h name (by simp)).2]

/-! ### Home -/

/-- A path that does not start with the part `~` is left as it is. -/
theorem expandHome_eq_self (home : String) {path : String} (halone : path ≠ "~")
    (hbelow : ∀ rest, path ≠ "~/" ++ rest) : expandHome home path = path := by
  have hpath := join_segments path
  rw [expandHome]
  split
  · next parts hparts =>
    rw [hparts, join] at hpath
    cases parts with
    | nil => exact absurd hpath.symm halone
    | cons part parts =>
      rw [String.intercalate_cons_cons] at hpath
      exact absurd hpath.symm (hbelow _)
  · rfl

example : expandHome "/root" "./~" = "./~" := by decide +kernel

/-- Names below the home directory. -/
theorem expandHome_join {home : String} (hhome : home ≠ "") (hopen : home.endsWith "/" = false)
    {parts : List String} (h : ∀ part ∈ parts, IsName part) :
    expandHome home (join ("~" :: parts)) = home ++ "/" ++ join parts := by
  have hslashes : ∀ part ∈ "~" :: parts, '/' ∉ part.toList := by
    rintro part (_ | ⟨_, hpart⟩)
    · decide
    · exact (h part hpart).1
  have hkept : parts.dropWhile idle = parts := by
    cases parts with
    | nil => rfl
    | cons name rest => exact List.dropWhile_cons_of_neg (by simp [(h name (by simp)).2])
  simp [expandHome, segments_join (List.cons_ne_nil _ _) hslashes, hkept, trimEnd_names h, hhome,
    hopen]

example : expandHome "/root" "~/logs/p.log" = "/root/logs/p.log" := by decide +kernel

/-! ### Directories -/

theorem start_join {parts : List String} (hsome : parts ≠ []) (h : ∀ part ∈ parts, IsName part) :
    start (join parts) = ("", parts) := by
  obtain ⟨name, rest, rfl⟩ := List.exists_cons_of_ne_nil hsome
  have hname := (h name (by simp)).2
  rw [idle, Bool.or_eq_false_iff, beq_eq_false_iff_ne, beq_eq_false_iff_ne] at hname
  rw [start, segments_join hsome fun part hpart => (h part hpart).1]
  split
  · next heq => exact absurd (List.cons.inj heq).1 hname.1
  · next heq => exact absurd (List.cons.inj heq).1 hname.2
  · rfl

/-- The last of some names lies in the directory that the others lead to. -/
theorem parent?_join {parts : List String} {name : String}
    (h : ∀ part ∈ parts ++ [name], IsName part) :
    parent? (join (parts ++ [name])) = some (join parts) := by
  have habove : ∀ part ∈ parts, IsName part := fun part hpart => h part (by simp [hpart])
  have hlast : (parts ++ [name]).reverse = name :: parts.reverse := by simp
  rw [parent?, start_join (by simp) h]
  simp only [trimEnd_names h, hlast, List.reverse_reverse, trimEnd_names habove]
  simp

example : parent? "logs/deep/p.log" = some "logs/deep" := by decide +kernel

/-- A name that slashes follow lies in the directory that the parts before it lead to. -/
theorem slashed?_slashes {name : String} (hname : IsName name) (hup : name ≠ "..")
    (parts : List String) (count : Nat) :
    slashed? (parts ++ name :: List.replicate (count + 1) "") = some parts := by
  have hfull : name ≠ "" := by
    rintro rfl
    simp [IsName, idle] at hname
  have hkept : (trimSlashes (parts ++ name :: List.replicate (count + 1) "")).reverse =
      name :: parts.reverse := by
    have hslashes : ∀ part ∈ List.replicate (count + 1) "", (part == "") = true := by simp
    rw [trimSlashes, List.reverse_reverse, List.reverse_append, List.reverse_cons,
      List.reverse_replicate, List.append_assoc, List.dropWhile_append_of_pos hslashes]
    simp [hfull]
  have hlast : (name :: List.replicate (count + 1) "").getLast? = some "" := by
    simp [List.getLast?_cons, List.getLast?_replicate]
  simp [slashed?, hkept, hlast, hname.2, hup]

example : slashed? (segments "logs/p.log//") = some ["logs"] := by decide +kernel

end ParameterLog.Path
