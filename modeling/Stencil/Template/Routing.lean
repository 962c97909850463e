import Stencil.Template.Lines

/-! # Controller and router templates

    The two files of a module that tie its services to requests. -/

namespace Stencil.Template

/-- The request handlers of a module. -/
def controller : String := ofLines
  ["import « Request, Response » from \"express\";",
    "",
    "import List««Model»»Service from \"../services/««ModuleServicesPath»»/List««Model»»Service\";",
    "import Show««Model»»Service from \"../services/««ModuleServicesPath»»/Show««Model»»Service\";",
    "import Store««Model»»Service from \"../services/««ModuleServicesPath»»/Store««Model»»Service\";",
    "import Update««Model»»Service from \"../services/««ModuleServicesPath»»/Update««Model»»Service\";",
    "import Delete««Model»»Service from \"../services/««ModuleServicesPath»»/Delete««Model»»Service\";",
    "",
    "type IndexQuery = «",
    "  searchParam?: string;",
    "  pageNumber?: string;",
    "»;",
    "",
    "export const index = async (req: Request, res: Response): Promise<Response> => «",
    "  const « searchParam, pageNumber » = req.query as IndexQuery;",
    "",
    "  const « ««modelPlural»», count, hasMore » = await List««Model»»Service(«",
    "    searchParam,",
    "    pageNumber,",
    "  »);",
    "",
    "  return res.json(« ««modelPlural»», count, hasMore »);",
    "»;",
    "",
    "export const show = async (req: Request, res: Response): Promise<Response> => «",
    "  const ««model»» = await Show««Model»»Service(Number(req.params.««model»»Id));",
    "",
    "  return res.status(200).json(««model»»);",
    "»;",
    "",
    "export const store = async (req: Request, res: Response): Promise<Response> => «",
    "  const ««model»» = await Store««Model»»Service(req.body);",
    "",
    "  return res.status(201).json(««model»»);",
    "»;",
    "",
    "export const update = async (req: Request, res: Response): Promise<Response> => «",
    "  const ««model»» = await Update««Model»»Service(«",
    "    id: Number(req.params.««model»»Id),",
    "    data: req.body,",
    "  »);",
    "",
    "  return res.status(200).json(««model»»);",
    "»;",
    "",
    "export const remove = async (req: Request, res: Response): Promise<Response> => «",
    "  await Delete««Model»»Service(Number(req.params.««model»»Id));",
    "",
    "  return res.status(200).json(« message: \"««Model»» deleted\" »);",
    "»;"]

/-- The routes of a module. -/
def router : String := ofLines
  ["import « Router » from \"express\";",
    "",
    "import isAuth from \"../middleware/auth\";",
    "import * as ««Model»»Controller from \"../controllers/««Model»»Controller\";",
    "",
    "const ««model»»Routes = Router();",
    "",
    "««model»»Routes.get(\"/««modelPlural»»\", isAuth, ««Model»»Controller.index);",
    "««model»»Routes.get(\"/««modelPlural»»/:««model»»Id\", isAuth, ««Model»»Controller.show);",
    "««model»»Routes.post(\"/««modelPlural»»\", isAuth, ««Model»»Controller.store);",
    "««model»»Routes.put(\"/««modelPlural»»/:««model»»Id\", isAuth, ««Model»»Controller.update);",
    "««model»»Routes.delete(\"/««modelPlural»»/:««model»»Id\", isAuth, ««Model»»Controller.remove);",
    "",
    "export default ««model»»Routes;"]

end Stencil.Template
