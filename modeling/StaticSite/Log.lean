import StaticSite.Path.Basic

/-!
# Log

What a build says about its work while it runs: entries of four levels, each with the part that
speaks.
-/

namespace StaticSite.Log

/-- How important an entry is. -/
inductive Level where
  /-- For those who look for a fault. -/
  | debug
  /-- A step that was done. -/
  | info
  /-- Something is missing, and the work goes on without it. -/
  | warning
  /-- Something failed. -/
  | error
deriving DecidableEq, Repr

namespace Level

/-- The name of a level. -/
def name : Level → String
  | debug => "DEBUG"
  | info => "INFO"
  | warning => "WARNING"
  | error => "ERROR"

/-- The place of a level in their order. -/
def rank : Level → Nat
  | debug => 0
  | info => 1
  | warning => 2
  | error => 3

/-- Whether a level is at least as important as another. -/
def isAtLeast (a b : Level) : Bool := b.rank ≤ a.rank

end Level

/-- The parts that speak. -/
inductive Speaker where
  /-- Configuration. -/
  | configuration
  /-- Includes. -/
  | includes
  /-- File store. -/
  | store
  /-- Assets. -/
  | assets
  /-- Script chunks. -/
  | chunks
  /-- Tags. -/
  | tags
  /-- Output files. -/
  | output
  /-- Pages. -/
  | pages
  /-- Sitemap. -/
  | sitemap
  /-- Stylesheets. -/
  | styles
  /-- Build passes. -/
  | passes
deriving DecidableEq, Repr

/-- The name that a speaker has in log lines. -/
def Speaker.name : Speaker → String
  | configuration => "pagebundler.core.config.manager"
  | includes => "pagebundler.core.bundling.resolver"
  | store => "pagebundler.core.filestore"
  | assets => "pagebundler.core.pipeline.assets"
  | chunks => "pagebundler.core.pipeline.collaborators"
  | tags => "pagebundler.core.pipeline.injection"
  | output => "pagebundler.core.pipeline.output"
  | pages => "pagebundler.core.pipeline.page"
  | sitemap => "pagebundler.core.pipeline.sitemap"
  | styles => "pagebundler.core.pipeline.styles"
  | passes => "pagebundler.core.build.coordinator"

/-- An entry of the log. -/
structure Line where
  /-- Its level. -/
  level : Level
  /-- Who speaks. -/
  speaker : Speaker
  /-- What is said. -/
  message : String
deriving DecidableEq, Repr

/-- The text of an entry, after the time at which it was made. -/
def Line.text (e : Line) : String :=
  e.level.name ++ " " ++ e.speaker.name ++ ": " ++ e.message

end StaticSite.Log
