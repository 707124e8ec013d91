import DecisionTreeC.Json.Codec
import DecisionTreeC.File.Tree
import DecisionTreeC.Main
import DecisionTreeC.Proofs.RootedTree
import DecisionTreeC.Proofs.Scope
import DecisionTreeC.Proofs.Conversion
import DecisionTreeC.Proofs.Renumbering
import DecisionTreeC.Proofs.Prediction
import DecisionTreeC.Proofs.Shortest
import DecisionTreeC.Proofs.Numeral
import DecisionTreeC.Proofs.RoundTrip
import DecisionTreeC.Proofs.Assembly
import DecisionTreeC.Proofs.Cleaning
import DecisionTreeC.Proofs.Growth
import DecisionTreeC.Proofs.Layout
import DecisionTreeC.Proofs.WordSize
import DecisionTreeC.Proofs.Printer
import DecisionTreeC.Proofs.Mirror
import DecisionTreeC.Proofs.Delivery
import DecisionTreeC.Proofs.Diagnosis
import DecisionTreeC.Proofs.Traversal
import DecisionTreeC.Proofs.Truncation
import DecisionTreeC.Proofs.Route
import DecisionTreeC.Proofs.Offender
import DecisionTreeC.Proofs.CleanName
import DecisionTreeC.Proofs.Collision
import DecisionTreeC.Proofs.ClassNaming
import DecisionTreeC.Proofs.SlotFilling
import DecisionTreeC.Proofs.FreshChildren
import DecisionTreeC.Proofs.Majority
