import CrossReference.Usage.Search

/-!
# Confidence

How certain it is that a site refers to what is searched for. The kind of a site sets a tier, and
the tier sinks with how the receiver and a mediating string are known. Unresolved names, reflection,
and members that no declaration answers are never better than dynamic.
-/

namespace CrossReference

/-- The tiers, the best first. -/
inductive Confidence where
  | certain
  | probable
  | possible
  | dynamic
deriving DecidableEq, Inhabited

namespace Confidence

/-- Every tier, the best first. -/
def all : List Confidence :=
  [certain, probable, possible, dynamic]

/-- How far a tier is from the best one. -/
def rank : Confidence → Nat
  | certain => 0
  | probable => 1
  | possible => 2
  | dynamic => 3

/-- The word for a tier. -/
def render : Confidence → String
  | certain => "CERTAIN"
  | probable => "PROBABLE"
  | possible => "POSSIBLE"
  | dynamic => "DYNAMIC"

/-- The worse of two tiers. -/
def worse (a b : Confidence) : Confidence :=
  if a.rank < b.rank then b else a

/-- The best tier that an origin allows. -/
def ofOrigin : Origin → Confidence
  | .explicit | .selfRef | .constructed => certain
  | .annotated => probable
  | .traced _ => possible
  | .untraceable => dynamic

/-- The tier of a kind of site if nothing weakens it. -/
def ofKind : UsageKind → Confidence
  | .instanceMemberAccess => probable
  | .dynamicCall => possible
  | _ => certain

end Confidence

/-- Whether the name at a site was not resolved. -/
def Resolution.isUnresolved : Resolution → Bool
  | unresolved _ => true
  | _ => false

namespace Site

/-- Whether a site has no tier above dynamic, whatever its kind. -/
def isDynamic (site : Site) (ctx : Context) : Bool :=
  site.evidence.resolution.isUnresolved || site.evidence.reflective ||
    site.evidence.member.any (!·.declared) ||
    (site.evidence.receiver == some .selfRef && ctx.currentType?.isNone)

/-- The confidence in a site at a place. -/
def confidence (site : Site) (ctx : Context) : Confidence :=
  if site.isDynamic ctx then
    .dynamic
  else
    (site.evidence.receiver.toList ++ site.evidence.mediator.toList).foldl
      (fun tier origin => tier.worse (.ofOrigin origin)) (.ofKind site.kind)

end Site
end CrossReference
