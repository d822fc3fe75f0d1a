import GraphGen.Config.Decode
import GraphGen.Config.Shared
import GraphGen.Decimal.Binary64
import GraphGen.Decimal.Shortest
import GraphGen.Diagnostic
import GraphGen.Dialect.Basic
import GraphGen.Dialect.Flow
import GraphGen.Dialect.TypeScript
import GraphGen.Document.Basic
import GraphGen.Document.FragmentIndex
import GraphGen.Document.Printer
import GraphGen.Document.Reader
import GraphGen.Document.Tree
import GraphGen.Error
import GraphGen.Json.Number
import GraphGen.Json.Printer
import GraphGen.Json.Reader
import GraphGen.Json.Value
import GraphGen.Main
import GraphGen.Output.Comment
import GraphGen.Output.ImportLines
import GraphGen.Output.Writer
import GraphGen.Plugin.Basic
import GraphGen.Plugin.Catalog
import GraphGen.Plugin.Run
import GraphGen.Plugin.Standard
import GraphGen.Project.Arguments
import GraphGen.Project.Check
import GraphGen.Project.Fault
import GraphGen.Project.File
import GraphGen.Project.FileTree
import GraphGen.Project.Host
import GraphGen.Project.Load
import GraphGen.Project.Path
import GraphGen.Project.Run
import GraphGen.Schema.Basic
import GraphGen.Schema.Build
import GraphGen.Sdl.Basic
import GraphGen.Sdl.Printer
import GraphGen.Sdl.Reader
import GraphGen.Shape.Basic
import GraphGen.Shape.Render
import GraphGen.Shape.Resolve
import GraphGen.Syntax.Printer
import GraphGen.Syntax.Reader
import GraphGen.Syntax.Token
import GraphGen.Syntax.Value
import GraphGen.Table
import GraphGen.Targets.CSharpClasses
import GraphGen.Targets.ClassItem
import GraphGen.Targets.Declaration
import GraphGen.Targets.DocumentConstants
import GraphGen.Targets.FlowTypes
import GraphGen.Targets.Insertion
import GraphGen.Targets.Introspection
import GraphGen.Targets.JavaClasses
import GraphGen.Targets.KotlinClasses
import GraphGen.Targets.OperationTypes
import GraphGen.Targets.PossibleTypes
import GraphGen.Targets.SchemaText
import GraphGen.Targets.Stamp
import GraphGen.Targets.TypeScriptTypes
import GraphGen.Text.Blank
import GraphGen.Text.Digits
import GraphGen.Text.Pieces
import GraphGen.Text.Printable
import GraphGen.Text.Quoted
import GraphGen.Text.Uppercase
import GraphGen.Time.Calendar
import GraphGen.Time.Format
import GraphGen.Wrapping
import GraphGen.Proofs.Fragments.Building
import GraphGen.Proofs.Shape.Levels
import GraphGen.Proofs.Shape.Termination
import GraphGen.Proofs.Schema.Accepted
import GraphGen.Proofs.Shape.CollectFields
import GraphGen.Proofs.Shape.Strategies
import GraphGen.Proofs.Shape.Keys
import GraphGen.Proofs.Schema.AbstractTypes
import GraphGen.Proofs.Plugin.Checking
import GraphGen.Proofs.Plugin.Needs
import GraphGen.Proofs.Plugin.Standard
import GraphGen.Proofs.Project.CleanCheck
import GraphGen.Proofs.Schema.Growth
import GraphGen.Proofs.Sdl.Appending
import GraphGen.Proofs.Schema.Merging
import GraphGen.Proofs.Targets.Introspection
import GraphGen.Proofs.Fragments.Reaching
import GraphGen.Proofs.Targets.ShownDefinitions
import GraphGen.Proofs.Text.Escaping
import GraphGen.Proofs.Targets.SelfContained
import GraphGen.Proofs.Shape.Terms
import GraphGen.Proofs.Targets.Picks
import GraphGen.Proofs.Targets.DeclarationOrder
import GraphGen.Proofs.Targets.Expansion
import GraphGen.Proofs.Text.TemplateLiteral
import GraphGen.Proofs.Targets.Templates
import GraphGen.Proofs.Decimal.Display
import GraphGen.Proofs.Json.Printing
import GraphGen.Proofs.Document.Tree
import GraphGen.Proofs.Document.PrintedTree
import GraphGen.Proofs.Dialect.Wrapping
import GraphGen.Proofs.Shape.Collisions
import GraphGen.Proofs.Shape.InterfaceShortcut
import GraphGen.Proofs.Targets.DeclaredNames
import GraphGen.Proofs.Fragments.FirstUse
import GraphGen.Proofs.Targets.TypeReferences
import GraphGen.Proofs.Shape.UnknownFragments
import GraphGen.Proofs.Shape.SpreadsFirst
import GraphGen.Proofs.Shape.SpreadPlaces
import GraphGen.Proofs.Text.Replacing
import GraphGen.Proofs.Targets.Texts
import GraphGen.Proofs.Schema.Declared
import GraphGen.Proofs.Schema.ListedOnce
import GraphGen.Proofs.Text.Quoting
import GraphGen.Proofs.Schema.Deprecation
import GraphGen.Proofs.Syntax.Scanning
import GraphGen.Proofs.Syntax.WrittenValues
import GraphGen.Proofs.Schema.Declarable
import GraphGen.Proofs.Schema.RootTypes
import GraphGen.Proofs.Schema.Implementing
import GraphGen.Proofs.Schema.Sorted
import GraphGen.Proofs.Targets.SchemaText
import GraphGen.Proofs.Targets.WithoutDirectives
import GraphGen.Proofs.Targets.InputExpansion
import GraphGen.Proofs.Shape.NotedTypes
import GraphGen.Proofs.Targets.DocumentNames
import GraphGen.Proofs.Output.Levels
import GraphGen.Proofs.Output.Rows
import GraphGen.Proofs.Output.Reindenting
import GraphGen.Proofs.Dialect.NullableTemplate
import GraphGen.Proofs.Text.Occurrences
import GraphGen.Proofs.Output.Comments
import GraphGen.Proofs.Output.Commented
import GraphGen.Proofs.Schema.Undescribed
import GraphGen.Proofs.Targets.DescribedDeclarations
import GraphGen.Proofs.Targets.DescribedClasses
import GraphGen.Proofs.Targets.Descriptions
import GraphGen.Proofs.Targets.BalancedSteps
import GraphGen.Proofs.Plugin.InsertedLines
import GraphGen.Proofs.Text.Cutting
import GraphGen.Proofs.Targets.Packages
import GraphGen.Proofs.Targets.ArgumentConversions
import GraphGen.Proofs.Project.Trees
import GraphGen.Proofs.Project.Paths
import GraphGen.Proofs.Project.DocumentPaths
import GraphGen.Proofs.Text.Brackets
import GraphGen.Proofs.Dialect.Operands
import GraphGen.Proofs.Shape.EveryField
import GraphGen.Proofs.Shape.NamedShapes
import GraphGen.Proofs.Shape.BuiltTypes
