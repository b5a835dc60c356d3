import StaticSite.Store

/-!
# Collaborators

The parts of a build that may be supplied from outside: the file store, the compiler of stylesheets
and what follows it, the minifier of pages, and the lookup of script chunks. Each may change the
session, and each may fail.
-/

namespace StaticSite

/-- A compiled stylesheet. -/
structure CompiledStyle where
  /-- Its text. -/
  css : List Char
  /-- The files it was made from. -/
  loaded : List Path
deriving DecidableEq, Repr

/-- The parts of a build that may be supplied from outside. -/
structure Collaborators (σ : Type) where
  /-- The file store. -/
  store : FileStore σ
  /-- Compiles a stylesheet, for visitors if `optimized`. -/
  compile : (source : Path) → (optimized : Bool) → Action σ CompiledStyle
  /-- Works on a compiled stylesheet that is made for visitors. -/
  postProcess : List Char → Action σ (List Char)
  /-- Minifies a page as some options say. -/
  minify : List Char → (options : Mapping) → Action σ (List Char)
  /-- The file of a script chunk. -/
  chunkFile : (name : String) → Action σ (Option String)

end StaticSite
