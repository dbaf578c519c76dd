namespace FlowGraph

/-- The identity of a package. Its name, which keys are built from, joins the components by dots. -/
structure PackageId where
  org : String
  comps : List String
  name : String
  version : String
  name_eq : name = ".".intercalate comps
  deriving DecidableEq

namespace PackageId

def anonymousOrg : String := "$anon"

def defaultName : String := "."

def defaultVersion : String := "0.0.0"

def new (org : String) (comps : List String) (version : String) : PackageId :=
  ⟨org, comps, ".".intercalate comps, version, rfl⟩

theorem eq_iff {p q : PackageId} :
    p = q ↔ p.org = q.org ∧ p.comps = q.comps ∧ p.version = q.version := by
  constructor
  · rintro rfl
    exact ⟨rfl, rfl, rfl⟩
  · obtain ⟨_, _, _, _, rfl⟩ := p
    obtain ⟨_, _, _, _, rfl⟩ := q
    rintro ⟨rfl, rfl, rfl⟩
    rfl

def ofParts (org : Option String) (comps : List String) (version : Option String) : PackageId :=
  new (org.getD anonymousOrg) (if comps.isEmpty then [defaultName] else comps)
    (version.getD defaultVersion)

def anonymous : PackageId := new anonymousOrg [defaultName] defaultVersion

instance : Inhabited PackageId := ⟨anonymous⟩

def isUnnamed (p : PackageId) : Bool := p.org == anonymousOrg && p.name == defaultName

def key (p : PackageId) : String := p.org ++ "/" ++ p.name

def functionKey (p : PackageId) (function : String) : String := p.key ++ ":" ++ function

def text (p : PackageId) : String :=
  if p.isUnnamed then "$anon-package" else p.key ++ " v " ++ p.version

end PackageId

/-- Where an identity is stored in a context. Equal identities are stored once. -/
abbrev PackageRef := Nat

end FlowGraph
