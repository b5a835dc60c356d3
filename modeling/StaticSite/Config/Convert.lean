import StaticSite.Fault
import StaticSite.Site.Settings
import StaticSite.Value.Show

/-!
# Settings of a configuration

How settings are made of a configuration. A value that a configuration need not have takes its
default where it counts as false; every path is made absolute and normal. A configuration that
violates its schema may not make settings, and then there is a fault that says which value cannot be
used.
-/

namespace StaticSite.Config

/-- The value of a key of a mapping. -/
def field? (v : Value) (key : String) : Except Fault (Option Value) :=
  match v with
  | .mapping entries => .ok (Mapping.find? entries key)
  | v => .error (.misuse (.operation "get") v.kindName)

/-- The value of a key of a mapping, or a default if it counts as false. -/
def fieldOr (v : Value) (key : String) (default : Value) : Except Fault Value :=
  (field? v key).map fun m =>
    match m with
    | some m => if m.isTruthy then m else default
    | none => default

/-- The value of a key that a mapping must have. -/
def need (v : Value) (key : String) : Except Fault Value :=
  match v with
  | .mapping entries =>
    match Mapping.find? entries key with
    | some m => .ok m
    | none => .error (.missingKey (.text key))
  | .list _ | .tuple _ | .text _ | .bytes _ => .error (.misuse .listKey v.kindName)
  | v => .error (.misuse .lookup v.kindName)

/-- The members of a value that is gone through: of a mapping its keys, of a text its characters, of
bytes their numbers. -/
def members (v : Value) : Except Fault (List Value) :=
  match v with
  | .list items | .tuple items | .set items => .ok items
  | .mapping entries => .ok (entries.map Prod.fst)
  | .text s => .ok (s.toList.map fun c => .text (String.singleton c))
  | .bytes b => .ok (b.map fun n => .int n.toNat)
  | v => .error (.misuse .iterate v.kindName)

/-- The entries of a mapping. -/
def entries (v : Value) : Except Fault Mapping :=
  match v with
  | .mapping entries => .ok entries
  | v => .error (.misuse (.operation "items") v.kindName)

mutual

/-- The kind of the first value in a key that can be no key. -/
def refusedKind? : Value → Option String
  | .tuple items => firstRefusedKind? items
  | .list items => some (Value.list items).kindName
  | .set items => some (Value.set items).kindName
  | .mapping entries => some (Value.mapping entries).kindName
  | _ => none

/-- The kind of the first value among the members of a tuple that can be no key. -/
def firstRefusedKind? : List Value → Option String
  | [] => none
  | v :: rest => refusedKind? v <|> firstRefusedKind? rest

end

/-- A key and a value made of the members of a value, which have to be two. -/
def pairOf (index : Nat) (v : Value) : Except Fault (Value × Value) := do
  let parts ← (members v).mapError fun _ => .misuse .entries v.kindName
  match parts with
  | [key, value] =>
    match refusedKind? key with
    | some kind => throw (.unhashable kind)
    | none => return (key, value)
  | parts => throw (.entryLength index parts.length)

/-- A mapping made of a value: of a mapping itself, of anything else that has members the pairs they
make. -/
def mappingOf (v : Value) : Except Fault Mapping :=
  match v with
  | .mapping entries => .ok entries
  | v => do
    let pairs ← (← members v).zipIdx.mapM fun (m, index) => pairOf index m
    return Mapping.ofEntries pairs

/-- The digits of a whole number that is written with underscores between digits. -/
def ungroup : List Char → Option (List Nat)
  | [] => none
  | [c] => (Text.digit? c).map fun d => [d]
  | c :: '_' :: rest => do
    let d ← Text.digit? c
    return d :: (← ungroup rest)
  | c :: rest => do
    let d ← Text.digit? c
    return d :: (← ungroup rest)

/-- The whole number a text stands for. -/
def intOfText (s : String) : Except Fault Int :=
  let t := Text.trim s.toList
  let (negative, digits) :=
    match t with
    | '-' :: rest => (true, rest)
    | '+' :: rest => (false, rest)
    | t => (false, t)
  match ungroup digits with
  | none => .error (.number (.text s))
  | some digits =>
    if Json.digitLimit < digits.length then .error (.longNumber digits.length)
    else
      let n : Int := Decimal.ofDigits 10 digits
      .ok (if negative then -n else n)

/-- The characters that bytes stand for in a number; those beyond the first 128 stand for none. -/
def spelling (b : List UInt8) : String :=
  String.ofList (b.map fun n => if n < 28 || (31 < n && n < 128) then Char.ofNat n.toNat else '?')

/-- The whole number a value stands for. A float loses its fraction. -/
def intOf (v : Value) : Except Fault Int :=
  match v with
  | .int n => .ok n
  | .bool b => .ok (if b then 1 else 0)
  | .float x =>
    match Decimal.truncated? x with
    | some n => .ok n
    | none => .error (if x.isNaN then .notANumber else .infinite)
  | .text s => intOfText s
  | .bytes b =>
    (intOfText (spelling b)).mapError fun
      | .number _ => .number v
      | fault => fault
  | v => .error (.misuse .number v.kindName)

/-- The text of a value. -/
def textOf (v : Value) : Except Fault String :=
  if v.isWritable then .ok v.display else .error .unwritableNumber

/-- What is made of a value that is there and counts as true. -/
def ifTruthy {α : Type} (v : Option Value) (f : Value → Except Fault α) : Except Fault (Option α) :=
  match v with
  | some v => if v.isTruthy then some <$> f v else .ok none
  | none => .ok none

/-- The path that a value names below a base. -/
def pathOf (place : Place) (base : Path) (v : Value) : Except Fault Path := do
  let s ← textOf v
  if Path.hasHome s then return Path.absolute place s (some base)
    else throw (.tree .nullCharacter (Path.ofString s))

/-- The rules for includes in a configuration. -/
def includesOf (config : Value) : Except Fault IncludeOptions := do
  let v ← fieldOr config "includes" (.mapping [])
  let word ← fieldOr v "prefix" (.text "PageBundler")
  let mode ← fieldOr v "pattern" (.text "include")
  let properties ← field? v "properties"
  let limit ← fieldOr v "max_depth" (.int 32)
  return ⟨← textOf word, ← textOf mode, properties.getD (.mapping []), ← intOf limit⟩

/-- The files of script chunks: one text is a list of one. -/
def filesOf (v : Value) : Except Fault (List String) :=
  match v with
  | .text s => .ok [s]
  | v => do (← members v).mapM textOf

/-- Gives a name its files: in its place, or at the end. -/
def setFiles (chunks : List (String × List String)) (name : String) (files : List String) :
    List (String × List String) :=
  match chunks with
  | [] => [(name, files)]
  | (n, f) :: rest => if n = name then (n, files) :: rest else (n, f) :: setFiles rest name files

/-- The script chunks in a configuration. -/
def chunksOf (config : Value) : Except Fault (List (String × List String)) := do
  let v ← fieldOr config "chunks" (.mapping [])
  (← entries v).foldlM (fun chunks e => do
    let files ← filesOf e.2
    return setFiles chunks (← textOf e.1) files) []

/-- A stylesheet of a page. -/
def stylesheetOf (place : Place) (root : Path) (v : Value) : Except Fault Stylesheet := do
  let source ← pathOf place root (← need v "import")
  return ⟨source, ← textOf (← need v "filename")⟩

/-- A script chunk of a page. -/
def scriptChunkOf (v : Value) : Except Fault ScriptChunk := do
  let name ← textOf (← need v "name")
  let placement ← textOf (← fieldOr v "inject" (.text "body"))
  let attributes ← mappingOf (← fieldOr v "attributes" (.mapping []))
  return ⟨name, placement, attributes⟩

/-- How the canonical address of a page is made. -/
def canonicalOf (v : Option Value) : Except Fault (Option Canonical) :=
  ifTruthy v fun v => do
    let origin ← textOf (← need v "origin_url")
    let slash ← field? v "force_trailing_slash"
    return ⟨origin, slash.any Value.isTruthy⟩

/-- Whether a value has a key, a member or a part that is this text. -/
def holds (v : Value) (key : String) : Except Fault Bool :=
  match v with
  | .mapping entries => .ok (Mapping.find? entries key).isSome
  | .list items | .tuple items | .set items => .ok (items.any fun m => m.sameKey (.text key))
  | .text s => .ok (Text.cut? key.toList s.toList).isSome
  | v => .error (.misuse .contains v.kindName)

/-- An entry of a site: with a source path a directory, otherwise a page. -/
def entryOf (place : Place) (root : Path) (key v : Value) : Except Fault SiteEntry := do
  if ← holds v "src_path" then
    let source ← pathOf place root (← need v "src_path")
    let target ← textOf (← fieldOr v "dest_path" (.text ""))
    return .assets ⟨key, source, target⟩
  else
    let styles ← (← members (← fieldOr v "styles" (.list []))).mapM (stylesheetOf place root)
    let chunks ← (← members (← fieldOr v "jschunks" (.list []))).mapM scriptChunkOf
    let canonical ← canonicalOf (← field? v "canonical")
    let source ← ifTruthy (← field? v "import") (pathOf place root)
    let filename ← ifTruthy (← field? v "filename") textOf
    return .page ⟨key, source, filename, styles, chunks, canonical⟩

/-- The rules for the sitemap. -/
def sitemapOf (v : Option Value) : Except Fault (Option SitemapOptions) :=
  ifTruthy v fun v => do
    let listed ← field? v "include"
    let origin ← textOf (← need v "origin_url")
    let day ← ifTruthy (← field? v "lastmod") textOf
    let exclude ← (← members (← fieldOr v "exclude" (.list []))).mapM textOf
    let listed ←
      match listed with
      | none | some .null => pure none
      | some l => do pure (some (← (← members l).mapM textOf))
    return ⟨origin, day, exclude, listed⟩

/-- The settings of a configuration whose relative paths start from `root`. -/
def settingsOf (place : Place) (root : Path) (config : Value) : Except Fault Settings := do
  let includes ← includesOf config
  let chunks ← chunksOf config
  let manifest ← field? config "chunk_manifest"
  let output ← pathOf place root (← fieldOr config "output_path" (.text "dist"))
  let mode ← textOf (← fieldOr config "mode" (.text "development"))
  let clean ← field? config "clean"
  let minify ← mappingOf (← fieldOr config "minify" (.mapping []))
  let manifest ← ifTruthy manifest (pathOf place root)
  let items ← entries (← fieldOr config "entry" (.mapping []))
  let items ← items.mapM fun e => entryOf place root e.1 e.2
  let sitemap ← sitemapOf (← field? config "sitemap")
  return {
    root := root
    output := output
    mode := mode
    clean := clean.any Value.isTruthy
    includes := includes
    minify := minify
    chunks := chunks
    manifest := manifest
    entries := items
    sitemap := sitemap }

end StaticSite.Config
