import Typeway.Base.FsPath
import Typeway.Base.Traversal
import Typeway.Grpc.ProtoEnds

/-!
# Imports of `.proto` files

`parse_proto_with_imports` follows the imports of a text. A file is parsed when its path is new, so
files count by the paths that name them, and the main file, which enters as a text, has no path that
was seen.
-/

namespace Typeway.Grpc

open Checked Typeway.Core Traversal

/-! ## Files and what they import -/

/-- The files that can be read, and the paths they are read at. A file can have several paths. -/
structure Disk (File : Type) where
  files : List File
  text : File → Str
  readAt : Str → Option File
  inside : ∀ path file, readAt path = some file → file ∈ files

variable {File : Type}

/-- The first include directory with a file at the path. -/
def Disk.find (disk : Disk File) (includeDirs : List Str) (importPath : Str) : Option File :=
  includeDirs.findSome? fun dir => disk.readAt (FsPath.join dir importPath)

/-- `import_path.starts_with("google/protobuf/")`. -/
def isBuiltIn (importPath : Str) : Bool :=
  "google/protobuf/".toList.isPrefixOf importPath

section

variable (disk : Disk File) (includeDirs : List Str)

/-- The loop of `parse_proto_recursive` over the imports of a text, `parse` being the recursive
call. `seen` are the paths in the set, in the order of insertion. -/
def importsLoop (parse : Str → List Str → Run Str (ProtoFile × List Str)) :
    ProtoFile → List Str → List Str → Run Str (ProtoFile × List Str)
  | proto, seen, [] => .ok (proto, seen)
  | proto, seen, importPath :: rest =>
    if isBuiltIn importPath then importsLoop parse proto seen rest
    else if seen.contains importPath then importsLoop parse proto seen rest
    else
      match disk.find includeDirs importPath with
      | none => importsLoop parse proto (seen ++ [importPath]) rest
      | some file => do
        let (imported, seen) ← parse (disk.text file) (seen ++ [importPath])
        importsLoop parse
          { proto with
            messages := proto.messages ++ imported.messages
            enums := proto.enums ++ imported.enums }
          seen rest

/-- `parse_proto_recursive`, with a bound on the depth of the calls. -/
def parseProtoRecursive : Nat → Str → List Str → Run Str (ProtoFile × List Str)
  | 0, _, _ => .error .unfinished
  | depth + 1, source, seen => do
    let proto ← parseProto source
    importsLoop disk includeDirs (parseProtoRecursive depth) proto seen proto.imports

def parseProtoWithImports (depth : Nat) (source : Str) : Run Str ProtoFile := do
  let (proto, _) ← parseProtoRecursive disk includeDirs depth source []
  pure proto

end

/-! ## What is followed -/

/-- The file that a text declares, when it parses. -/
def declared (source : Str) : Option ProtoFile :=
  (parseProto source).toOption

def messagesOf (source : Str) : List ParsedMessage :=
  (declared source).elim [] ProtoFile.messages

def enumsOf (source : Str) : List ParsedEnum :=
  (declared source).elim [] ProtoFile.enums

/-- The imports of a text that name files of their own. -/
def importsOf (source : Str) : List Str :=
  ((declared source).elim [] ProtoFile.imports).filter fun path => !isBuiltIn path

section

variable (disk : Disk File) (includeDirs : List Str)

/-- The imports of the file that a path names. -/
def Disk.next (path : Str) : List Str :=
  (disk.find includeDirs path).elim [] fun file => importsOf (disk.text file)

/-- The contents of the files that some paths name. -/
def Disk.contents {β : Type} (content : Str → List β) (paths : List Str) : List β :=
  (paths.filterMap (disk.find includeDirs)).flatMap fun file => content (disk.text file)

theorem Disk.contents_append {β : Type} (content : Str → List β) (paths more : List Str) :
    disk.contents includeDirs content (paths ++ more) =
      disk.contents includeDirs content paths ++ disk.contents includeDirs content more := by
  rw [contents, List.filterMap_append, List.flatMap_append]
  rfl

theorem Disk.contents_missing {β : Type} (content : Str → List β) {path : Str} (paths : List Str)
    (missing : disk.find includeDirs path = none) :
    disk.contents includeDirs content (path :: paths) = disk.contents includeDirs content paths := by
  rw [contents, List.filterMap_cons_none missing]
  rfl

theorem Disk.contents_found {β : Type} (content : Str → List β) {path : Str} (paths : List Str)
    {file : File} (found : disk.find includeDirs path = some file) :
    disk.contents includeDirs content (path :: paths) =
      content (disk.text file) ++ disk.contents includeDirs content paths := by
  rw [contents, List.filterMap_cons_some found, List.flatMap_cons]
  rfl

/-- A result carries on from a file and a set of paths by a visit of the paths to be done. -/
def Collects (proto : ProtoFile) (seen todo : List Str) (r : ProtoFile × List Str) : Prop :=
  ∃ visited, Visits (disk.next includeDirs) seen todo visited ∧
    r.2 = seen ++ visited ∧
    r.1.messages = proto.messages ++ disk.contents includeDirs messagesOf visited ∧
    r.1.enums = proto.enums ++ disk.contents includeDirs enumsOf visited

/-- The same of a call, which parses the file first. -/
def CollectsFrom (source : Str) (seen : List Str) (r : ProtoFile × List Str) : Prop :=
  ∃ proto, parseProto source = .ok proto ∧ Collects disk includeDirs proto seen (importsOf source) r

variable {disk includeDirs}

theorem declared_of_ok {source : Str} {proto : ProtoFile} (parsed : parseProto source = .ok proto) :
    messagesOf source = proto.messages ∧ enumsOf source = proto.enums ∧
      importsOf source = proto.imports.filter fun path => !isBuiltIn path := by
  have known : declared source = some proto := by rw [declared, parsed]; rfl
  refine ⟨?_, ?_, ?_⟩
  · rw [messagesOf, known]; rfl
  · rw [enumsOf, known]; rfl
  · rw [importsOf, known]; rfl

theorem Collects.skip {proto : ProtoFile} {seen todo : List Str} {path : Str}
    {r : ProtoFile × List Str} (old : path ∈ seen) (rest : Collects disk includeDirs proto seen todo r) :
    Collects disk includeDirs proto seen (path :: todo) r := by
  obtain ⟨visited, visits, facts⟩ := rest
  exact ⟨visited, .skip old visits, facts⟩

/-- A path without a file is seen, and adds nothing. -/
theorem Collects.missing {proto : ProtoFile} {seen todo : List Str} {path : Str}
    {r : ProtoFile × List Str} (fresh : path ∉ seen) (none : disk.find includeDirs path = none)
    (rest : Collects disk includeDirs proto (seen ++ [path]) todo r) :
    Collects disk includeDirs proto seen (path :: todo) r := by
  obtain ⟨visited, visits, seen', messages, enums⟩ := rest
  have leaf : Visits (disk.next includeDirs) (seen ++ [path]) (disk.next includeDirs path) [] := by
    rw [Disk.next, none]
    exact .nil _
  refine ⟨path :: visited, ?_, ?_, ?_, ?_⟩
  · exact .visit fresh leaf visits
  · rw [seen', List.append_assoc]
    rfl
  · rw [messages, disk.contents_missing includeDirs _ _ none]
  · rw [enums, disk.contents_missing includeDirs _ _ none]

/-- A file is taken in with all that its own imports bring. -/
theorem Collects.found {proto imported : ProtoFile} {seen seen' todo : List Str} {path : Str}
    {file : File} {r : ProtoFile × List Str} (fresh : path ∉ seen)
    (found : disk.find includeDirs path = some file)
    (inner : CollectsFrom disk includeDirs (disk.text file) (seen ++ [path]) (imported, seen'))
    (rest : Collects disk includeDirs
      { proto with
        messages := proto.messages ++ imported.messages
        enums := proto.enums ++ imported.enums }
      seen' todo r) :
    Collects disk includeDirs proto seen (path :: todo) r := by
  obtain ⟨own, parsed, below, visitsBelow, seenBelow, messagesBelow, enumsBelow⟩ := inner
  obtain ⟨visited, visits, seenAfter, messages, enums⟩ := rest
  obtain ⟨ownMessages, ownEnums, _⟩ := declared_of_ok parsed
  have leads : disk.next includeDirs path = importsOf (disk.text file) := by
    rw [Disk.next, found]
    rfl
  dsimp only at seenBelow messagesBelow enumsBelow messages enums
  have seenBelow : seen' = seen ++ path :: below := by rw [seenBelow, List.append_assoc]; rfl
  subst seenBelow
  refine ⟨path :: (below ++ visited), ?_, ?_, ?_, ?_⟩
  · exact .visit fresh (leads ▸ visitsBelow) visits
  · rw [seenAfter, List.append_assoc]
    rfl
  · rw [messages, disk.contents_found includeDirs _ _ found, disk.contents_append, messagesBelow,
      ownMessages]
    simp only [List.append_assoc]
  · rw [enums, disk.contents_found includeDirs _ _ found, disk.contents_append, enumsBelow, ownEnums]
    simp only [List.append_assoc]

theorem importsLoop_collects {parse : Str → List Str → Run Str (ProtoFile × List Str)}
    (call : ∀ source seen, Ensures (parse source seen) (CollectsFrom disk includeDirs source seen))
    (imports : List Str) : ∀ proto seen,
      Ensures (importsLoop disk includeDirs parse proto seen imports)
        (Collects disk includeDirs proto seen (imports.filter fun path => !isBuiltIn path)) := by
  induction imports with
  | nil =>
    intro proto seen
    exact .ok ⟨[], .nil seen, (List.append_nil _).symm, (List.append_nil _).symm,
      (List.append_nil _).symm⟩
  | cons path rest ih =>
    intro proto seen
    rw [importsLoop]
    cases builtIn : isBuiltIn path with
    | true =>
      rw [if_pos rfl, List.filter_cons_of_neg (by simp [builtIn])]
      exact ih proto seen
    | false =>
      rw [if_neg Bool.false_ne_true, List.filter_cons_of_pos (by simp [builtIn])]
      by_cases old : path ∈ seen
      · rw [if_pos (List.contains_iff_mem.2 old)]
        exact (ih proto seen).mono fun r => .skip old
      · rw [if_neg (mt List.contains_iff_mem.1 old)]
        cases found : disk.find includeDirs path with
        | none => exact (ih proto (seen ++ [path])).mono fun r => .missing old found
        | some file =>
          refine .bind (call _ _) fun imported inner => ?_
          exact (ih _ imported.2).mono fun r => .found old found inner

/-- A call takes in the file and, in the order of a depth-first visit, those its imports lead to. -/
theorem parseProtoRecursive_collects (depth : Nat) : ∀ source seen,
    Ensures (parseProtoRecursive disk includeDirs depth source seen)
      (CollectsFrom disk includeDirs source seen) := by
  induction depth with
  | zero => exact fun _ _ => .error _
  | succ depth ih =>
    intro source seen r result
    obtain ⟨proto, parsed, loop⟩ := bind_eq_ok.1 result
    refine ⟨proto, parsed, ?_⟩
    rw [(declared_of_ok parsed).2.2]
    exact importsLoop_collects ih proto.imports proto seen r loop

/-! ## Ending -/

/-- All the paths that the files of a disk and a text import. -/
def Disk.allImports (disk : Disk File) (source : Str) : List Str :=
  importsOf source ++ disk.files.flatMap fun file => importsOf (disk.text file)

theorem Disk.imports_of_found {path : Str} {file : File} (source : Str)
    (found : disk.find includeDirs path = some file) :
    importsOf (disk.text file) ⊆ disk.allImports source := by
  obtain ⟨dir, _, read⟩ := List.exists_of_findSome?_eq_some found
  intro k mem
  exact List.mem_append_right _ (List.mem_flatMap.2 ⟨file, disk.inside _ _ read, mem⟩)

theorem importsLoop_returns {all : List Str} {depth : Nat}
    {parse : Str → List Str → Run Str (ProtoFile × List Str)}
    (call : ∀ path file seen, disk.find includeDirs path = some file → unseen all seen < depth →
      Returns (parse (disk.text file) seen) fun r => unseen all r.2 ≤ unseen all seen)
    (imports : List Str) (known : ∀ path ∈ imports, isBuiltIn path = false → path ∈ all) :
    ∀ proto seen, unseen all seen ≤ depth →
      Returns (importsLoop disk includeDirs parse proto seen imports) fun r =>
        unseen all r.2 ≤ unseen all seen := by
  induction imports with
  | nil => exact fun proto seen _ => .ok (Nat.le_refl _)
  | cons path rest ih =>
    intro proto seen few
    obtain ⟨head, known⟩ := List.forall_mem_cons.1 known
    have ih := ih known
    rw [importsLoop]
    cases builtIn : isBuiltIn path with
    | true =>
      rw [if_pos rfl]
      exact ih proto seen few
    | false =>
      rw [if_neg Bool.false_ne_true]
      by_cases old : path ∈ seen
      · rw [if_pos (List.contains_iff_mem.2 old)]
        exact ih proto seen few
      · rw [if_neg (mt List.contains_iff_mem.1 old)]
        -- the new path is one fewer of those that are left
        have fewer := unseen_lt (head builtIn) old
        cases found : disk.find includeDirs path with
        | none =>
          exact (ih proto (seen ++ [path]) (by omega)).mono fun r less => by omega
        | some file =>
          refine .bind (call path file _ found (by omega)) fun imported less => ?_
          exact (ih _ imported.2 (by omega)).mono fun r less' => by omega

/-- A call ends when the depth allows for every path that is left. -/
theorem parseProtoRecursive_returns {main : Str} (depth : Nat) : ∀ source seen,
    importsOf source ⊆ disk.allImports main → unseen (disk.allImports main) seen < depth →
      Returns (parseProtoRecursive disk includeDirs depth source seen) fun r =>
        unseen (disk.allImports main) r.2 ≤ unseen (disk.allImports main) seen := by
  induction depth with
  | zero => exact fun _ _ _ none => absurd none (Nat.not_lt_zero _)
  | succ depth ih =>
    intro source seen inside few
    unfold parseProtoRecursive
    cases parsed : parseProto source with
    | error stop =>
      have finishes := (parseProto_finishes source).returns
      rw [parsed] at finishes
      exact finishes.error
    | ok proto =>
      apply @importsLoop_returns _ _ _ _ depth _ _ _ _ _ _ (Nat.le_of_lt_succ few)
      · intro path file seen found few
        exact ih _ _ (Disk.imports_of_found main found) few
      · intro path mem notBuiltIn
        apply inside
        rw [(declared_of_ok parsed).2.2]
        exact List.mem_filter.2 ⟨mem, by rw [notBuiltIn]; rfl⟩

/-- A loop whose calls end alike ends alike. -/
theorem importsLoop_congr {parse parse' : Str → List Str → Run Str (ProtoFile × List Str)}
    (agree : ∀ source seen, parse source seen ≠ .error .unfinished →
      parse' source seen = parse source seen) (imports : List Str) :
    ∀ proto seen, importsLoop disk includeDirs parse proto seen imports ≠ .error .unfinished →
      importsLoop disk includeDirs parse' proto seen imports =
        importsLoop disk includeDirs parse proto seen imports := by
  induction imports with
  | nil => exact fun _ _ _ => rfl
  | cons path rest ih =>
    intro proto seen ends
    unfold importsLoop at ends ⊢
    split
    · rename_i builtIn
      rw [if_pos builtIn] at ends
      exact ih _ _ ends
    · rename_i own
      rw [if_neg own] at ends
      split
      · rename_i old
        rw [if_pos old] at ends
        exact ih _ _ ends
      · rename_i fresh
        rw [if_neg fresh] at ends
        cases found : disk.find includeDirs path with
        | none =>
          rw [found] at ends
          exact ih _ _ ends
        | some file =>
          rw [found] at ends
          dsimp only at ends ⊢
          cases call : parse (disk.text file) (seen ++ [path]) with
          | error stop =>
            have same := agree (disk.text file) (seen ++ [path]) (by
              rw [call]
              rintro ⟨⟩
              rw [call] at ends
              exact ends rfl)
            rw [same, call]
            rfl
          | ok imported =>
            have same := agree (disk.text file) (seen ++ [path]) (by rw [call]; exact nofun)
            rw [same, call]
            rw [call] at ends
            exact ih _ _ ends

/-- Depth that a call does not use up makes no difference. -/
theorem parseProtoRecursive_succ (depth : Nat) : ∀ source seen,
    parseProtoRecursive disk includeDirs depth source seen ≠ .error .unfinished →
      parseProtoRecursive disk includeDirs (depth + 1) source seen =
        parseProtoRecursive disk includeDirs depth source seen := by
  induction depth with
  | zero => exact fun _ _ ends => absurd rfl ends
  | succ depth ih =>
    intro source seen ends
    rw [parseProtoRecursive] at ends ⊢
    rw [parseProtoRecursive]
    cases parsed : parseProto source with
    | error stop => rfl
    | ok proto =>
      rw [parsed] at ends
      exact importsLoop_congr ih proto.imports proto seen ends

end

/-! ## The whole result -/

/-- How a file comes into the result: as the main file, or by the path of an import. -/
inductive Way where
  | asMain
  | byPath (path : Str)
  deriving DecidableEq

section

variable (disk : Disk File) (includeDirs : List Str) (main : File)

/-- A path that is imported by the main file or by a file that such a path names. -/
def Follows (path : Str) : Prop :=
  ∃ root ∈ importsOf (disk.text main),
    Relation.ReflTransGen (fun a b => b ∈ disk.next includeDirs a) root path

def Way.Taken : Way → Prop
  | .asMain => True
  | .byPath path => Follows disk includeDirs main path

def Way.opens : Way → Option File
  | .asMain => some main
  | .byPath path => disk.find includeDirs path

/-- The main file and every file that imports lead to. -/
def Reached (file : File) : Prop :=
  ∃ way : Way, way.Taken disk includeDirs main ∧ way.opens disk includeDirs main = some file

/-- The messages and enums of every file reached, once for each of them. -/
def OnceEach (proto : ProtoFile) : Prop :=
  ∃ files : List File, files.Nodup ∧ (∀ file, file ∈ files ↔ Reached disk includeDirs main file) ∧
    proto.messages.Perm (files.flatMap fun file => messagesOf (disk.text file)) ∧
    proto.enums.Perm (files.flatMap fun file => enumsOf (disk.text file))

/-- No file that declares anything comes in two ways. -/
def OneWay : Prop :=
  ∀ way way' : Way, way.Taken disk includeDirs main → way'.Taken disk includeDirs main →
    ∀ file, way.opens disk includeDirs main = some file → way'.opens disk includeDirs main = some file →
      messagesOf (disk.text file) ≠ [] ∨ enumsOf (disk.text file) ≠ [] → way = way'

variable {disk includeDirs main}

/-- The ways that are taken, in the order of the visit, and what they bring. -/
theorem ways_of_ok {depth : Nat} {proto : ProtoFile}
    (ok : parseProtoWithImports disk includeDirs depth (disk.text main) = .ok proto) :
    ∃ ways : List Way, ways.Nodup ∧ (∀ way, way ∈ ways ↔ way.Taken disk includeDirs main) ∧
      proto.messages = (ways.filterMap (Way.opens disk includeDirs main)).flatMap
        (fun file => messagesOf (disk.text file)) ∧
      proto.enums = (ways.filterMap (Way.opens disk includeDirs main)).flatMap
        (fun file => enumsOf (disk.text file)) := by
  obtain ⟨r, result, same⟩ := bind_eq_ok.1 ok
  obtain rfl : r.1 = proto := Except.ok.inj same
  obtain ⟨own, parsed, visited, visits, _, messages, enums⟩ :=
    parseProtoRecursive_collects depth _ _ r result
  obtain ⟨ownMessages, ownEnums, _⟩ := declared_of_ok parsed
  have opened : (Way.asMain :: visited.map Way.byPath).filterMap (Way.opens disk includeDirs main) =
      main :: visited.filterMap (disk.find includeDirs) := by
    have head : Way.opens disk includeDirs main .asMain = some main := rfl
    rw [List.filterMap_cons_some head, List.filterMap_map]
    rfl
  refine ⟨.asMain :: visited.map .byPath, ?_, ?_, ?_, ?_⟩
  · refine List.nodup_cons.2 ⟨by simp, visits.fresh.1.map fun a b same => ?_⟩
    cases same
    rfl
  · intro way
    cases way with
    | asMain => exact iff_of_true List.mem_cons_self trivial
    | byPath path =>
      rw [List.mem_cons, List.mem_map, Way.Taken, Follows, ← visits.mem_iff]
      simp
  · rw [opened, List.flatMap_cons, ownMessages, messages]
    rfl
  · rw [opened, List.flatMap_cons, ownEnums, enums]
    rfl

theorem onceEach_iff {depth : Nat} {proto : ProtoFile}
    (ok : parseProtoWithImports disk includeDirs depth (disk.text main) = .ok proto) :
    OnceEach disk includeDirs main proto ↔ OneWay disk includeDirs main := by
  obtain ⟨ways, distinct, taken, messages, enums⟩ := ways_of_ok ok
  have once := @listed_once_iff _ _ _ (Way.opens disk includeDirs main) _
    (fun file => messagesOf (disk.text file)) (fun file => enumsOf (disk.text file)) _ distinct
  rw [OnceEach, messages, enums]
  simp only [Reached, ← taken]
  rw [once, NamedOnce, OneWay]
  simp only [← taken]
  constructor
  · exact fun h way way' inWay inWay' file => h way inWay way' inWay' file
  · exact fun h way inWay way' inWay' file => h way way' inWay inWay' file

/-- Nothing of a file that is reached is left out. -/
theorem nothing_lost {depth : Nat} {proto : ProtoFile}
    (ok : parseProtoWithImports disk includeDirs depth (disk.text main) = .ok proto) {file : File}
    (reached : Reached disk includeDirs main file) :
    messagesOf (disk.text file) ⊆ proto.messages ∧ enumsOf (disk.text file) ⊆ proto.enums := by
  obtain ⟨ways, _, taken, messages, enums⟩ := ways_of_ok ok
  obtain ⟨way, isTaken, opens⟩ := reached
  have opened : file ∈ ways.filterMap (Way.opens disk includeDirs main) :=
    List.mem_filterMap.2 ⟨way, (taken way).2 isTaken, opens⟩
  rw [messages, enums]
  exact ⟨fun m mem => List.mem_flatMap.2 ⟨file, opened, mem⟩,
    fun e mem => List.mem_flatMap.2 ⟨file, opened, mem⟩⟩

/-- The imports of a file come to an end, however they refer to each other. -/
theorem parseProtoWithImports_ends :
    ∃ depth, ∀ deeper ≥ depth,
      Returns (parseProtoWithImports disk includeDirs deeper (disk.text main)) (fun _ => True) ∧
      parseProtoWithImports disk includeDirs deeper (disk.text main) =
        parseProtoWithImports disk includeDirs depth (disk.text main) := by
  have ends (depth : Nat) (enough : unseen (disk.allImports (disk.text main)) [] < depth) :=
    @parseProtoRecursive_returns _ disk includeDirs (disk.text main) depth (disk.text main) []
      (List.subset_append_left _ _) enough
  refine ⟨unseen (disk.allImports (disk.text main)) [] + 1, fun deeper deep => ⟨?_, ?_⟩⟩
  · exact (ends deeper deep).bind fun _ _ => .ok trivial
  · induction deeper, deep using Nat.le_induction with
    | base => rfl
    | succ deeper deep ih =>
      have finished : parseProtoRecursive disk includeDirs deeper (disk.text main) [] ≠
          .error .unfinished := by
        intro stuck
        have returns := ends deeper deep
        rw [stuck] at returns
        exact returns
      rw [← ih, parseProtoWithImports, parseProtoWithImports,
        parseProtoRecursive_succ deeper _ _ finished]

end

/-- Following imports ends. Its result has everything that the files it reaches declare, and has it
once if and only if no file that declares anything comes in two ways. -/
theorem parseProtoWithImports_once_iff (disk : Disk File) (includeDirs : List Str) (main : File) :
    (∃ depth, ∀ deeper ≥ depth,
      Returns (parseProtoWithImports disk includeDirs deeper (disk.text main)) (fun _ => True) ∧
      parseProtoWithImports disk includeDirs deeper (disk.text main) =
        parseProtoWithImports disk includeDirs depth (disk.text main)) ∧
    ∀ depth proto, parseProtoWithImports disk includeDirs depth (disk.text main) = .ok proto →
      (∀ file, Reached disk includeDirs main file →
        messagesOf (disk.text file) ⊆ proto.messages ∧ enumsOf (disk.text file) ⊆ proto.enums) ∧
      (OnceEach disk includeDirs main proto ↔ OneWay disk includeDirs main) :=
  ⟨parseProtoWithImports_ends, fun _ _ ok => ⟨fun _ => nothing_lost ok, onceEach_iff ok⟩⟩

/-- Two files that import each other. -/
def twoFiles : Disk Bool where
  files := [true, false]
  text main :=
    if main then "import \"b.proto\";\nmessage A \x7b\n\x7d\n".toList else "import \"a.proto\";\n".toList
  readAt path :=
    if path = "p/a.proto".toList then some true
    else if path = "p/b.proto".toList then some false
    else none
  inside _ file _ :=
    match file with
    | true => .head _
    | false => .tail _ (.head _)

theorem twoFiles_parsed :
    parseProtoWithImports twoFiles ["p".toList] 3 (twoFiles.text true) =
      .ok {
        syntaxVersion := []
        package := []
        imports := ["b.proto".toList]
        services := []
        messages := [{ name := "A".toList, fields := [] }, { name := "A".toList, fields := [] }]
        enums := [] } :=
  rfl

/-- The import back to the main file takes its messages in again. -/
theorem main_file_twice :
    ¬ ∀ (disk : Disk Bool) (includeDirs : List Str) (main : Bool) (depth : Nat) (proto : ProtoFile),
      parseProtoWithImports disk includeDirs depth (disk.text main) = .ok proto →
        OnceEach disk includeDirs main proto := by
  intro all
  have once := (onceEach_iff twoFiles_parsed).1 (all _ _ _ _ _ twoFiles_parsed)
  have imported : "b.proto".toList ∈ importsOf (twoFiles.text true) := by decide
  have back : "a.proto".toList ∈ twoFiles.next ["p".toList] "b.proto".toList := by decide
  have same := once .asMain (.byPath "a.proto".toList) trivial ⟨_, imported, .single back⟩ true rfl
    rfl (.inl (by decide))
  cases same

end Typeway.Grpc
