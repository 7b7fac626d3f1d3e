import LoxLang.Console.Dialogue
import LoxLang.Main
import LoxLang.Program.Outline
import LoxLang.Proofs.Composition
import LoxLang.Proofs.Nodes
import LoxLang.Proofs.Places
import LoxLang.Proofs.Grammar.Total
import LoxLang.Proofs.Grammar.Progress
import LoxLang.Proofs.Tracks
import LoxLang.Proofs.Causes
import LoxLang.Proofs.Transitions
import LoxLang.Proofs.Depth
import LoxLang.Proofs.Direct
import LoxLang.Proofs.Direct.Restoration
import LoxLang.Proofs.Direct.Agreement
import LoxLang.Proofs.Calls
import LoxLang.Proofs.Relocation
import LoxLang.Proofs.Relocation.Reading
import LoxLang.Proofs.Relocation.Texts
import LoxLang.Proofs.Relocation.Names
import LoxLang.Proofs.Relocation.Steps
import LoxLang.Proofs.Insertion
import LoxLang.Proofs.Frames
import LoxLang.Proofs.Moments
import LoxLang.Proofs.Callees
import LoxLang.Proofs.Receivers
import LoxLang.Proofs.Contents
import LoxLang.Proofs.Held
import LoxLang.Proofs.Initializers
import LoxLang.Proofs.Alike
import LoxLang.Proofs.Alike.Values
import LoxLang.Proofs.Alike.States
import LoxLang.Proofs.Alike.Steps
import LoxLang.Proofs.Alike.Runs
import LoxLang.Proofs.Alike.Faults
import LoxLang.Proofs.Desugaring
import LoxLang.Proofs.Sites
import LoxLang.Proofs.Sites.Reads
import LoxLang.Proofs.OwnInitializers
import LoxLang.Proofs.Output
import LoxLang.Proofs.Renaming
import LoxLang.Proofs.Renaming.Accepted
import LoxLang.Proofs.Grammar.Fuel
import LoxLang.Proofs.Texts.Joined
import LoxLang.Proofs.Globals.Relaxed
import LoxLang.Proofs.Lineages
import LoxLang.Proofs.Arguments
import LoxLang.Proofs.Fields
import LoxLang.Proofs.Properties
import LoxLang.Proofs.Offsets
import LoxLang.Proofs.Layout
import LoxLang.Proofs.Brackets
import LoxLang.Proofs.Brackets.Nesting
import LoxLang.Proofs.Fragments
import LoxLang.Proofs.Diagnostics
import LoxLang.Proofs.Input
import LoxLang.Proofs.Environments
import LoxLang.Proofs.Postfix.Programs
