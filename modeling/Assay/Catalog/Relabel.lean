import Assay.Catalog.Basic

/-!
# Relabelling

A new label for every assertion of a catalog, one after the other. The first fault ends this; the
assertions before it keep their new labels.
-/

namespace Assay.Catalog

variable {μ : Type → Type} [Monad μ]

def relabelAssertions (label : Assertion → μ (Except Fault String)) :
    List Assertion → μ (List Assertion × Except Fault Unit)
  | [] => pure ([], .ok ())
  | a :: as => do
    match ← label a with
    | .error f => return (a :: as, .error f)
    | .ok l =>
      let (as, r) ← relabelAssertions label as
      return ({ a with label := l } :: as, r)

def relabelMethods (label : Method → Assertion → μ (Except Fault String)) :
    List Method → μ (List Method × Except Fault Unit)
  | [] => pure ([], .ok ())
  | m :: ms => do
    match ← relabelAssertions (label m) m.assertions with
    | (as, .error f) => return ({ m with assertions := as } :: ms, .error f)
    | (as, .ok ()) =>
      let (ms, r) ← relabelMethods label ms
      return ({ m with assertions := as } :: ms, r)

def relabel (label : Class → Method → Assertion → μ (Except Fault String)) :
    Catalog → μ (Catalog × Except Fault Unit)
  | [] => pure ([], .ok ())
  | k :: ks => do
    match ← relabelMethods (label k) k.methods with
    | (ms, .error f) => return ({ k with methods := ms } :: ks, .error f)
    | (ms, .ok ()) =>
      let (ks, r) ← relabel label ks
      return ({ k with methods := ms } :: ks, r)

end Assay.Catalog
