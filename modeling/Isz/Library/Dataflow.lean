import Mathlib.Data.List.Basic

-- for one event: the ports by which it leaves each component
structure Dataflow (Component Port : Type) where
  components : List Component
  inputs : Component → List Port
  emits : Component → List Port
  sink : List Port

namespace Dataflow

variable {Component Port : Type} (g : Dataflow Component Port)

def Leads : Port → List (Component × Port) → Prop
  | port, [] => port ∈ g.sink
  | port, (c, next) :: hops =>
    c ∈ g.components ∧ port ∈ g.inputs c ∧ next ∈ g.emits c ∧ Leads next hops

def Determined : Port → List (Component × Port) → Prop
  | port, [] => port ∈ g.sink ∧ ∀ c ∈ g.components, port ∉ g.inputs c
  | port, (c, next) :: hops =>
    port ∉ g.sink ∧ c ∈ g.components ∧ port ∈ g.inputs c ∧ g.emits c = [next] ∧
      (∀ c' ∈ g.components, port ∈ g.inputs c' → c' = c) ∧ Determined next hops

variable {g} {port : Port} {hops : List (Component × Port)}

end Dataflow
